import SparqlViews.Proofs.Naming.Encoding
import SparqlViews.View.Lookup
import SparqlViews.View.Variables

/-! # The paths of a view

In a view whose names are legal and distinct, the paths are exactly those under which an entry is
found (`mem_paths_iff`), and their names are legal (`legal_of_mem_paths`), so that each of them is
read back from its variable. The variables of a view are those of its paths, in another order
(`perm_vars`).

* `find?_cons`, `get?_leaf`, `get?_nested`: a search goes by the first name.
* `visible`: the paths without a hidden entry on them; `visible_cons` goes by the first name too.
-/

namespace SparqlViews

namespace Path

theorem ancestors_cons (name : String) {q : Path} (hq : q ≠ []) :
    ancestors (name :: q) = [name] :: (ancestors q).map (name :: ·) := by
  obtain ⟨next, q, rfl⟩ := List.exists_cons_of_ne_nil hq
  simp [ancestors, List.range_succ_eq_map, List.map_map, Function.comp_def]

@[simp] theorem length_ancestors (p : Path) : (ancestors p).length = p.length - 1 := by
  simp [ancestors]

end Path

namespace View

open Naming

variable {v : View} {name : String} {e : Entry}

/-- Whether the names of a view are legal and distinct can be computed. -/
def decidableWellFormed : (v : View) → Decidable v.WellFormed
  | empty => .isTrue trivial
  | leaf p rest =>
    have := decidableWellFormed rest
    inferInstanceAs (Decidable (isShortName p.name = true ∧ p.name ∉ rest.names ∧ rest.WellFormed))
  | nested p sub rest =>
    have := decidableWellFormed sub
    have := decidableWellFormed rest
    inferInstanceAs (Decidable (isShortName p.name = true ∧ p.name ∉ rest.names ∧
      sub.WellFormed ∧ rest.WellFormed))

instance (v : View) : Decidable v.WellFormed := decidableWellFormed v

/-! ### Entries by name -/

@[simp] theorem get?_leaf (p : Property) (rest : View) (name : String) :
    (leaf p rest).get? name = if p.name = name then some ⟨p, none⟩ else rest.get? name := rfl

@[simp] theorem get?_nested (p : Property) (sub rest : View) (name : String) :
    (nested p sub rest).get? name =
      if p.name = name then some ⟨p, some sub⟩ else rest.get? name := rfl

theorem name_of_get? : ∀ {v : View}, v.get? name = some e → e.name = name
  | leaf p rest, h => by
    rw [get?_leaf] at h
    split at h
    · rename_i hp; rw [← Option.some.inj h]; exact hp
    · exact name_of_get? h
  | nested p sub rest, h => by
    rw [get?_nested] at h
    split at h
    · rename_i hp; rw [← Option.some.inj h]; exact hp
    · exact name_of_get? h

@[simp] theorem get?_isSome : ∀ {v : View}, (v.get? name).isSome ↔ name ∈ v.names
  | empty => by simp [get?, names]
  | leaf p rest => by
    by_cases h : p.name = name
    · simp [names, h]
    · simp [names, h, Ne.symm h, get?_isSome (v := rest)]
  | nested p sub rest => by
    by_cases h : p.name = name
    · simp [names, h]
    · simp [names, h, Ne.symm h, get?_isSome (v := rest)]

theorem WellFormed.of_get? : ∀ {v : View}, v.WellFormed → v.get? name = some e →
    isShortName name = true ∧ ∀ sub, e.sub = some sub → sub.WellFormed
  | leaf p rest, hv, h => by
    rw [get?_leaf] at h
    split at h
    · rename_i hp
      rw [← Option.some.inj h]
      exact ⟨hp ▸ hv.1, by simp⟩
    · exact of_get? hv.2.2 h
  | nested p sub rest, hv, h => by
    rw [get?_nested] at h
    split at h
    · rename_i hp
      rw [← Option.some.inj h]
      refine ⟨hp ▸ hv.1, fun s hs => ?_⟩
      rw [← Option.some.inj hs]
      exact hv.2.2.1
    · exact of_get? hv.2.2.2 h

/-! ### Entries by path -/

@[simp] theorem find?_nil (v : View) : v.find? [] = none := by simp [find?]

@[simp] theorem find?_singleton (v : View) (name : String) : v.find? [name] = v.get? name := by
  simp [find?]

theorem find?_cons (v : View) (name : String) {q : Path} (hq : q ≠ []) :
    v.find? (name :: q) = (v.get? name).bind fun e => e.sub.bind fun sub => sub.find? q := by
  obtain ⟨next, q, rfl⟩ := List.exists_cons_of_ne_nil hq
  simp only [find?, Option.bind_eq_bind]

theorem find?_congr {v w : View} (h : v.get? name = w.get? name) (q : Path) :
    v.find? (name :: q) = w.find? (name :: q) := by
  rcases eq_or_ne q [] with rfl | hq
  · simp [h]
  · rw [find?_cons v name hq, find?_cons w name hq, h]

/-- **Where an entry is found**: under the name itself, or in the view of the entry of the first name. -/
theorem exists_of_find?_cons {v : View} {q : Path} (h : v.find? (name :: q) = some e) :
    ∃ d, v.get? name = some d ∧ (q = [] ∧ d = e ∨ ∃ sub, d.sub = some sub ∧ sub.find? q = some e) := by
  rcases eq_or_ne q [] with rfl | hq
  · exact ⟨e, by simpa using h, .inl ⟨rfl, rfl⟩⟩
  · rw [find?_cons v name hq] at h
    obtain ⟨d, hget, h⟩ := Option.bind_eq_some_iff.1 h
    obtain ⟨sub, hsub, h⟩ := Option.bind_eq_some_iff.1 h
    exact ⟨d, hget, .inr ⟨sub, hsub, h⟩⟩

theorem ne_nil_of_find? {v : View} {p : Path} (h : v.find? p = some e) : p ≠ [] := by
  rintro rfl
  simp at h

theorem find?_append {v : View} {p q : Path} (hp : p ≠ []) (hq : q ≠ []) : v.find? (p ++ q) =
    (v.find? p).bind fun e => e.sub.bind fun sub => sub.find? q := by
  induction p generalizing v with
  | nil => exact absurd rfl hp
  | cons name p ih =>
    rw [List.cons_append, find?_cons v name (by simp [hq])]
    rcases eq_or_ne p [] with rfl | hpne
    · simp
    · rw [find?_cons v name hpne, Option.bind_assoc]
      simp only [ih hpne, Option.bind_assoc]

theorem WellFormed.of_find? {v : View} {p : Path} (hv : v.WellFormed) (h : v.find? p = some e) :
    ∀ sub, e.sub = some sub → sub.WellFormed := by
  induction p generalizing v with
  | nil => exact absurd rfl (ne_nil_of_find? h)
  | cons name q ih =>
    obtain ⟨d, hget, ⟨rfl, rfl⟩ | ⟨sub, hsub, h⟩⟩ := exists_of_find?_cons h
    · exact (hv.of_get? hget).2
    · exact ih ((hv.of_get? hget).2 sub hsub) h

/-! ### The list of paths -/

theorem pathsUnder_eq : ∀ (v : View) (base : Path), v.pathsUnder base = v.paths.map (base ++ ·)
  | empty, base => rfl
  | leaf p rest, base => by
    rw [paths, pathsUnder, pathsUnder, pathsUnder_eq rest base, ← paths]
    rfl
  | nested p sub rest, base => by
    rw [paths, pathsUnder, pathsUnder, pathsUnder_eq rest base, pathsUnder_eq sub,
      pathsUnder_eq sub ([] ++ [p.name]), ← paths]
    simp [Function.comp_def]

@[simp] theorem paths_leaf (p : Property) (rest : View) : (leaf p rest).paths = [p.name] :: rest.paths := by
  rw [paths, pathsUnder, ← paths]
  rfl

@[simp] theorem paths_nested (p : Property) (sub rest : View) :
    (nested p sub rest).paths = [p.name] :: (sub.paths.map (p.name :: ·) ++ rest.paths) := by
  rw [paths, pathsUnder, pathsUnder_eq sub, ← paths]
  rfl

theorem mem_paths_leaf {p : Property} {rest : View} {q : Path} :
    q ∈ (leaf p rest).paths ↔ q = [p.name] ∨ q ∈ rest.paths := by
  simp

theorem mem_paths_nested {p : Property} {sub rest : View} {q : Path} :
    q ∈ (nested p sub rest).paths ↔
      q = [p.name] ∨ (∃ r ∈ sub.paths, p.name :: r = q) ∨ q ∈ rest.paths := by
  simp

theorem exists_cons_of_mem_paths : ∀ {v : View} {q : Path}, q ∈ v.paths →
    ∃ name rest, q = name :: rest ∧ name ∈ v.names
  | leaf p rest, q, h => by
    rcases mem_paths_leaf.1 h with rfl | h
    · exact ⟨p.name, [], rfl, by simp [names]⟩
    · obtain ⟨n, r, rfl, hn⟩ := exists_cons_of_mem_paths h
      exact ⟨n, r, rfl, by simp [names, hn]⟩
  | nested p sub rest, q, h => by
    rcases mem_paths_nested.1 h with rfl | ⟨r, -, rfl⟩ | h
    · exact ⟨p.name, [], rfl, by simp [names]⟩
    · exact ⟨p.name, r, rfl, by simp [names]⟩
    · obtain ⟨n, r, rfl, hn⟩ := exists_cons_of_mem_paths h
      exact ⟨n, r, rfl, by simp [names, hn]⟩

theorem ne_nil_of_mem_paths {q : Path} (h : q ∈ v.paths) : q ≠ [] := by
  obtain ⟨n, r, rfl, -⟩ := exists_cons_of_mem_paths h
  exact List.cons_ne_nil n r

theorem not_mem_paths_of_name (h : name ∉ v.names) (q : Path) : name :: q ∉ v.paths := by
  intro hmem
  obtain ⟨first, more, heq, hfirst⟩ := exists_cons_of_mem_paths hmem
  exact h ((List.cons.inj heq).1 ▸ hfirst)

theorem exists_cons_of_mem_rest {rest : View} {q : Path} (h : name ∉ rest.names)
    (hq : q ∈ rest.paths) : ∃ other more, q = other :: more ∧ other ≠ name := by
  obtain ⟨other, more, rfl, hother⟩ := exists_cons_of_mem_paths hq
  exact ⟨other, more, rfl, fun heq => h (heq ▸ hother)⟩

theorem find?_eq_none_of_not_mem {rest : View} (hname : name ∉ rest.names)
    (hpaths : ∀ {q : Path}, q ∈ rest.paths ↔ (rest.find? q).isSome) (q : Path) :
    rest.find? (name :: q) = none := by
  rw [← Option.not_isSome_iff_eq_none, ← hpaths]
  exact not_mem_paths_of_name hname q

/-- **The paths of a view are those under which an entry is found.** -/
theorem mem_paths_iff : ∀ {v : View}, v.WellFormed → ∀ {q : Path},
    q ∈ v.paths ↔ (v.find? q).isSome
  | empty, _, q => by
    have hget : ∀ n, empty.get? n = none := fun _ => rfl
    rcases q with _ | ⟨n, q⟩
    · simp [paths, pathsUnder]
    · rcases eq_or_ne q [] with rfl | hq
      · simp [paths, pathsUnder, hget]
      · simp [paths, pathsUnder, find?_cons _ n hq, hget]
  | leaf p rest, hv, q => by
    rw [mem_paths_leaf, mem_paths_iff hv.2.2]
    rcases q with _ | ⟨n, q⟩
    · simp
    by_cases hn : p.name = n
    · have hother := find?_eq_none_of_not_mem (hn ▸ hv.2.1) (mem_paths_iff hv.2.2) q
      have hget : (leaf p rest).get? n = some ⟨p, none⟩ := by simp [hn]
      rcases eq_or_ne q [] with rfl | hq
      · simp [hget, hn]
      · simp [find?_cons (leaf p rest) n hq, hget, hother, hq]
    · have hget : (leaf p rest).get? n = rest.get? n := by simp [hn]
      rw [find?_congr hget]
      simp [Ne.symm hn]
  | nested p sub rest, hv, q => by
    rw [mem_paths_nested, mem_paths_iff hv.2.2.2]
    rcases q with _ | ⟨n, q⟩
    · simp
    by_cases hn : p.name = n
    · have hother := find?_eq_none_of_not_mem (hn ▸ hv.2.1) (mem_paths_iff hv.2.2.2) q
      have hget : (nested p sub rest).get? n = some ⟨p, some sub⟩ := by simp [hn]
      rcases eq_or_ne q [] with rfl | hq
      · simp [hget, hn]
      · simp [find?_cons (nested p sub rest) n hq, hget, hother, hq, hn, mem_paths_iff hv.2.2.1]
    · have hget : (nested p sub rest).get? n = rest.get? n := by simp [hn]
      rw [find?_congr hget]
      simp [Ne.symm hn, hn]

theorem singleton_mem_paths_iff (hv : v.WellFormed) : [name] ∈ v.paths ↔ name ∈ v.names := by
  simp [mem_paths_iff hv]

theorem legal_of_mem_paths : ∀ {v : View}, v.WellFormed → ∀ {q : Path}, q ∈ v.paths → Legal q
  | leaf p rest, hv, q, h => by
    rcases mem_paths_leaf.1 h with rfl | h
    · simpa [Legal] using hv.1
    · exact legal_of_mem_paths hv.2.2 h
  | nested p sub rest, hv, q, h => by
    rcases mem_paths_nested.1 h with rfl | ⟨r, hr, rfl⟩ | h
    · simpa [Legal] using hv.1
    · intro n hn
      rcases List.mem_cons.1 hn with rfl | hn
      · exact hv.1
      · exact legal_of_mem_paths hv.2.2.1 hr n hn
    · exact legal_of_mem_paths hv.2.2.2 h

theorem toVariable_inj {v : View} {root : String} {p q : Path} (hv : v.WellFormed)
    (hp : p ∈ v.paths) (hq : q ∈ v.paths) (h : Path.toVariable root p = Path.toVariable root q) :
    p = q := by
  rw [Path.toVariable_of_ne_nil (ne_nil_of_mem_paths hp),
    Path.toVariable_of_ne_nil (ne_nil_of_mem_paths hq)] at h
  exact Naming.encode_injective (legal_of_mem_paths hv hp) (legal_of_mem_paths hv hq) h

/-! ### Hidden entries -/

/-- **The path leads to an entry, and no entry on the way is hidden.** -/
def visible (v : View) (p : Path) : Bool :=
  (Path.ancestors p ++ [p]).all fun q => (v.find? q).any fun e => !e.property.hidden

@[simp] theorem visible_nil (v : View) : v.visible [] = false := by
  simp [visible, Path.ancestors]

@[simp] theorem visible_singleton (v : View) (name : String) :
    v.visible [name] = (v.get? name).any fun e => !e.property.hidden := by
  simp [visible, Path.ancestors]

theorem visible_cons (v : View) (name : String) {q : Path} (hq : q ≠ []) :
    v.visible (name :: q) = (v.get? name).any fun e =>
      !e.property.hidden && e.sub.any fun sub => sub.visible q := by
  have hbelow : ∀ r ∈ Path.ancestors q ++ [q], r ≠ [] := by
    intro r hr
    rcases List.mem_append.1 hr with hr | hr
    · obtain ⟨n, hn, rfl⟩ := List.mem_map.1 hr
      rw [ne_eq, List.take_eq_nil_iff]
      rintro (h | h)
      · omega
      · exact hq h
    · rw [List.mem_singleton.1 hr]
      exact hq
  have hmap : Path.ancestors (name :: q) ++ [name :: q] =
      [name] :: (Path.ancestors q ++ [q]).map (name :: ·) := by
    rw [Path.ancestors_cons name hq, List.map_append]
    rfl
  rw [visible, hmap, List.all_cons, List.all_map, find?_singleton]
  cases hget : v.get? name with
  | none => rfl
  | some e =>
    have hstep : ∀ r ∈ Path.ancestors q ++ [q],
        v.find? (name :: r) = e.sub.bind fun sub => sub.find? r := by
      intro r hr
      rw [find?_cons v name (hbelow r hr), hget]
      rfl
    rw [Option.any_some, Option.any_some]
    refine congrArg (!e.property.hidden && ·) ?_
    rw [Bool.eq_iff_iff, List.all_eq_true]
    cases hsub : e.sub with
    | none =>
      simp only [Option.any_none, Function.comp_apply, Bool.false_eq_true, iff_false]
      intro h
      have := h q (by simp)
      rw [hstep q (by simp), hsub] at this
      simp at this
    | some sub =>
      rw [Option.any_some, visible, List.all_eq_true]
      refine forall₂_congr fun r hr => ?_
      rw [Function.comp_apply, hstep r hr, hsub]
      rfl

/-! ### Variables -/

theorem Clauses.perm_optional (c : Clauses) (own : List String) :
    ({ c with optional := own ++ c.optional } : Clauses).all.Perm (own ++ c.all) :=
  List.perm_append_comm_assoc _ _ _

theorem Clauses.perm_nested (c : Clauses) (own : List String) :
    ({ c with nested := own ++ c.nested } : Clauses).all.Perm (own ++ c.all) := by
  simp only [Clauses.all, List.append_assoc]
  exact List.perm_append_comm_assoc _ _ _

theorem perm_clauses (root : String) : ∀ (v : View) (base : Path),
    (v.clauses root base).all.Perm ((v.pathsUnder base).map (Path.toVariable root))
  | empty, base => by simp [clauses, Clauses.all, pathsUnder]
  | leaf p rest, base => by
    have ih := perm_clauses root rest base
    rw [clauses, pathsUnder, List.map_cons]
    split
    · exact List.perm_middle.trans (ih.cons _)
    · exact ih.cons _
  | nested p sub rest, base => by
    have ih := perm_clauses root rest base
    have ihsub := perm_clauses root sub (base ++ [p.name])
    have hown := (ihsub.append ih).cons (Path.toVariable root (base ++ [p.name]))
    rw [clauses, pathsUnder, List.map_cons, List.map_append]
    split
    · exact (Clauses.perm_optional _ _).trans hown
    · exact (Clauses.perm_nested _ _).trans hown

/-- **The variables of a view are the root and those of its paths**, each as often. -/
theorem perm_vars (root : String) (v : View) :
    (v.vars root).Perm (root :: v.paths.map (Path.toVariable root)) :=
  (perm_clauses root v []).cons root

end View

end SparqlViews
