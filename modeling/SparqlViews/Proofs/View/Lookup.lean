import SparqlViews.Proofs.View.Search

/-! # Names and the paths they mean

Whatever way a name is looked up, the answer is a path of the view (`mem_paths_of_resolve`): a search goes
level by level, which meets each path once. The entries on the way to a path are those under
its beginnings, which are paths of the view too (`mem_paths_of_beginning`).

* `singleValued_eq_false_iff`: a path is not single-valued if an entry on it has many values.
* `needsNestedSelect_of_multi`: a view with such an entry needs an inner select for its pages.
-/

namespace SparqlViews

namespace Path

/-- **The ancestors of a path and itself are its beginnings**, from one name on. -/
theorem mem_ancestors_append {p q : Path} (hp : p ≠ []) :
    q ∈ ancestors p ++ [p] ↔ q ≠ [] ∧ q <+: p := by
  have hlen : 0 < p.length := List.length_pos_iff.2 hp
  rw [List.mem_append, List.mem_singleton, ancestors, List.mem_map]
  constructor
  · rintro (⟨n, hn, rfl⟩ | rfl)
    · refine ⟨?_, List.take_prefix _ _⟩
      rw [ne_eq, List.take_eq_nil_iff]
      rintro (h | h)
      · omega
      · exact hp h
    · exact ⟨hp, List.prefix_rfl⟩
  · rintro ⟨hq, hbegin⟩
    have htake := List.prefix_iff_eq_take.1 hbegin
    have hpos : 0 < q.length := List.length_pos_iff.2 hq
    rcases Nat.lt_or_ge q.length p.length with hlt | hge
    · refine .inl ⟨q.length - 1, List.mem_range.2 (by omega), ?_⟩
      rw [Nat.sub_add_cancel hpos]
      exact htake.symm
    · exact .inr (hbegin.eq_of_length_le hge)

end Path

namespace View

variable {v : View} {name : String} {e : Entry} {p q : Path}

/-! ### Names -/

theorem positions_eq (v : View) (name : String) :
    v.positions name = (v.breadthFirst.filter fun found => found.2.name = name).map (·.1) := by
  rw [positions, Search.all_start]

theorem mem_paths_of_mem_positions (h : p ∈ v.positions name) : p ∈ v.paths := by
  rw [positions_eq] at h
  obtain ⟨found, hfound, rfl⟩ := List.mem_map.1 h
  exact (perm_breadthFirst v).mem_iff.1 (List.mem_map_of_mem (List.mem_of_mem_filter hfound))

/-- **A name that is looked up means a path of the view.** -/
theorem mem_paths_of_resolve (hv : v.WellFormed) {lookup : Lookup}
    (h : v.resolve lookup name = .ok p) : p ∈ v.paths := by
  unfold resolve at h
  split at h
  · -- a name with a dot
    dsimp only at h
    split at h
    · rename_i hfind
      cases h
      exact (mem_paths_iff hv).2 hfind
    · cases h
  · cases lookup with
    | qualified =>
      dsimp only at h
      split at h
      · rename_i hget
        cases h
        exact (mem_paths_iff hv).2 (by simpa using hget)
      · cases h
    | breadthFirst =>
      dsimp only at h
      split at h
      · cases h
      · rename_i found after hnext
        cases h
        have hfirst := Search.next?_start (fun e => decide (e.name = name)) v
        rw [hnext] at hfirst
        exact mem_paths_of_mem_positions (List.mem_map_of_mem (List.mem_of_head? hfirst.symm))
    | unambiguous =>
      dsimp only at h
      split at h
      · cases h
      · rename_i only hpositions
        cases h
        exact mem_paths_of_mem_positions (hpositions ▸ List.mem_cons_self)
      · cases h

/-! ### Along a path -/

theorem isSome_find?_of_beginning (hq : q ≠ []) (hbegin : q <+: p) (h : (v.find? p).isSome) :
    (v.find? q).isSome := by
  induction q generalizing v p with
  | nil => exact absurd rfl hq
  | cons name q ih =>
    obtain ⟨more, rfl⟩ := hbegin
    rcases eq_or_ne (q ++ more) [] with hnil | hne
    · rw [List.append_eq_nil_iff] at hnil
      rwa [List.cons_append, hnil.1, hnil.2, List.append_nil, ← hnil.1] at h
    · rw [List.cons_append, find?_cons v name hne] at h
      cases hget : v.get? name with
      | none => simp [hget] at h
      | some e =>
        rcases eq_or_ne q [] with rfl | hqne
        · simp [hget]
        · rw [hget, Option.bind_some] at h
          cases hsub : e.sub with
          | none => simp [hsub] at h
          | some sub =>
            rw [hsub, Option.bind_some] at h
            rw [find?_cons v name hqne, hget, Option.bind_some, hsub, Option.bind_some]
            exact ih hqne (List.prefix_append q more) h

theorem mem_paths_of_beginning (hv : v.WellFormed) (hq : q ≠ []) (hbegin : q <+: p)
    (h : p ∈ v.paths) : q ∈ v.paths :=
  (mem_paths_iff hv).2 (isSome_find?_of_beginning hq hbegin ((mem_paths_iff hv).1 h))

/-- An entry with many values lies on the path. -/
def HasMulti (v : View) (p : Path) : Prop :=
  ∃ q e, q ≠ [] ∧ q <+: p ∧ v.find? q = some e ∧ e.property.multi = true

/-- **A path of a view is single-valued unless an entry with many values lies on it.** -/
theorem singleValued_eq_false_iff (h : (v.find? p).isSome) :
    v.singleValued p = false ↔ v.HasMulti p := by
  have hp : p ≠ [] := by
    rintro rfl
    simp at h
  rw [singleValued, List.all_eq_false]
  constructor
  · rintro ⟨q, hq, hany⟩
    obtain ⟨hne, hbegin⟩ := (Path.mem_ancestors_append hp).1 hq
    obtain ⟨e, he⟩ := Option.isSome_iff_exists.1 (isSome_find?_of_beginning hne hbegin h)
    rw [he, Option.any_some] at hany
    exact ⟨q, e, hne, hbegin, he, by simpa using hany⟩
  · rintro ⟨q, e, hne, hbegin, he, hmulti⟩
    refine ⟨q, (Path.mem_ancestors_append hp).2 ⟨hne, hbegin⟩, ?_⟩
    rw [he, Option.any_some, hmulti]
    decide

theorem needsNestedSelect_of_get? : ∀ {v : View}, v.get? name = some e →
    (e.property.multi = true ∨ ∃ sub, e.sub = some sub ∧ sub.needsNestedSelect = true) →
    v.needsNestedSelect = true
  | leaf p rest, hget, h => by
    rw [get?_leaf] at hget
    rw [needsNestedSelect, Bool.or_eq_true]
    split at hget
    · rw [← Option.some.inj hget] at h
      exact .inl (by simpa using h)
    · exact .inr (needsNestedSelect_of_get? hget h)
  | nested p sub rest, hget, h => by
    rw [get?_nested] at hget
    rw [needsNestedSelect, Bool.or_eq_true, Bool.or_eq_true, Bool.or_eq_true]
    split at hget
    · rw [← Option.some.inj hget] at h
      rcases h with h | ⟨below, hbelow, h⟩
      · exact .inl (.inl (.inl h))
      · rw [← Option.some.inj hbelow] at h
        exact .inl (.inr h)
    · exact .inr (needsNestedSelect_of_get? hget h)

theorem needsNestedSelect_of_multi (he : v.find? p = some e) (hmulti : e.property.multi = true) :
    v.needsNestedSelect = true := by
  induction p generalizing v with
  | nil => exact absurd rfl (ne_nil_of_find? he)
  | cons name q ih =>
    obtain ⟨d, hget, ⟨rfl, rfl⟩ | ⟨sub, hsub, he⟩⟩ := exists_of_find?_cons he
    · exact needsNestedSelect_of_get? hget (.inl hmulti)
    · exact needsNestedSelect_of_get? hget (.inr ⟨sub, hsub, ih he⟩)

end View

end SparqlViews
