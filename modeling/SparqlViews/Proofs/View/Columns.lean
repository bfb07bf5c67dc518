import SparqlViews.Pattern.Compile
import SparqlViews.Proofs.Endpoint.RootVariable

/-! # The columns of a view

The variables of a view are listed twice, once by the view itself and once by its pattern, group by
group, and the lists are the same (`vars_compile`). A stream reads the paths back from these variables:
unless a path has the variable of the root, its columns are the variables behind that of the root, each
with the path that it was made of (`map_fst_columns`, `perm_map_snd_columns`).

* `sublist_columns`, `mem_front_columns`: the column of a path comes after those of its beginnings.
-/

namespace SparqlViews

namespace Pattern

/-- **The variables of one level of a pattern** are those of the view, group by group. -/
structure SameVariables (parts : Parts) (clauses : View.Clauses) : Prop where
  leaves : parts.pairs.map (·.2) = clauses.leaves
  nested : parts.nestedVariables = clauses.nested
  optional : parts.optionalVariables = clauses.optional

theorem SameVariables.vars {parts : Parts} {clauses : View.Clauses}
    (h : SameVariables parts clauses) : parts.vars .full = clauses.all := by
  rw [Parts.vars, if_pos rfl, h.leaves, h.nested, h.optional, View.Clauses.all]

theorem sameVariables_compileUnder (root : String) : ∀ (v : View) (base : Path) (subject : String),
    SameVariables (compileUnder .full root subject base v) (v.clauses root base)
  | .empty, _, _ => ⟨rfl, rfl, rfl⟩
  | .leaf p rest, base, subject => by
    obtain ⟨hleaves, hnested, hoptional⟩ := sameVariables_compileUnder root rest base subject
    rw [compileUnder, View.clauses]
    split
    · exact ⟨hleaves, hnested, congrArg (List.cons _) hoptional⟩
    · exact ⟨congrArg (List.cons _) hleaves, hnested, hoptional⟩
  | .nested p sub rest, base, subject => by
    obtain ⟨hleaves, hnested, hoptional⟩ := sameVariables_compileUnder root rest base subject
    let here := base ++ [p.name]
    have hsub := (sameVariables_compileUnder root sub here (Path.toVariable root here)).vars
    rw [compileUnder, View.clauses]
    rw [hsub]
    split
    · exact ⟨hleaves, hnested, congrArg (_ ++ ·) hoptional⟩
    · exact ⟨hleaves, congrArg (_ ++ ·) hnested, hoptional⟩

theorem vars_compile (root : String) (v : View) : (compile .full root v).vars = v.vars root :=
  congrArg (root :: ·) (sameVariables_compileUnder root v [] root).vars

end Pattern

namespace View

variable {v : View} {root : String} {p q : Path}

theorem perm_tail_vars (root : String) (v : View) :
    (v.vars root).tail.Perm (v.paths.map (Path.toVariable root)) :=
  (List.perm_cons root).1 (perm_vars root v)

theorem map_fst_columns (hroot : ∀ p ∈ v.paths, Path.toVariable root p ≠ root) :
    (v.columns root).map (·.1) = (v.vars root).tail := by
  have hkept : (v.vars root).tail.filter (· ≠ root) = (v.vars root).tail := by
    refine List.filter_eq_self.2 fun name hname => ?_
    obtain ⟨p, hp, rfl⟩ := List.mem_map.1 ((perm_tail_vars root v).mem_iff.1 hname)
    exact decide_eq_true (hroot p hp)
  have hvars : v.vars root = root :: (v.vars root).tail := rfl
  rw [columns, List.map_map, hvars, List.filter_cons_of_neg (by simp), hkept]
  exact List.map_id _

theorem perm_map_snd_columns (hv : v.WellFormed)
    (hroot : ∀ p ∈ v.paths, Path.toVariable root p ≠ root) :
    ((v.columns root).map (·.2)).Perm v.paths := by
  have hcolumns : (v.columns root).map (·.2) = (v.vars root).tail.map (Path.ofVariable root) := by
    rw [← map_fst_columns hroot, List.map_map]
    refine List.map_congr_left fun c hc => ?_
    obtain ⟨p, hp, rfl⟩ := (mem_columns hv hroot).1 hc
    exact (ofVariable_of_mem_paths hv hp (hroot p hp)).symm
  have hpaths : (v.paths.map (Path.toVariable root)).map (Path.ofVariable root) = v.paths := by
    rw [List.map_map]
    refine (List.map_congr_left fun p hp => ?_).trans (List.map_id _)
    exact ofVariable_of_mem_paths hv hp (hroot p hp)
  rw [hcolumns]
  exact hpaths ▸ (perm_tail_vars root v).map (Path.ofVariable root)

/-! ### The order of the columns -/

theorem Clauses.sublist_optional (c : Clauses) (own : List String) :
    own.Sublist ({ c with optional := own ++ c.optional } : Clauses).all ∧
      c.all.Sublist ({ c with optional := own ++ c.optional } : Clauses).all := by
  constructor
  · exact (List.sublist_append_left own c.optional).trans (List.sublist_append_right _ _)
  · exact (List.sublist_append_right own c.optional).append_left _

theorem Clauses.sublist_nested (c : Clauses) (own : List String) :
    own.Sublist ({ c with nested := own ++ c.nested } : Clauses).all ∧
      c.all.Sublist ({ c with nested := own ++ c.nested } : Clauses).all := by
  constructor
  · refine List.Sublist.trans ?_ (List.sublist_append_left _ c.optional)
    exact (List.sublist_append_left own c.nested).trans (List.sublist_append_right c.leaves _)
  · exact ((List.sublist_append_right own c.nested).append_left c.leaves).append_right c.optional

theorem sublist_clauses_leaf (root : String) (base : Path) (s : Property) (rest : View) :
    (rest.clauses root base).all.Sublist ((leaf s rest).clauses root base).all := by
  rw [clauses]
  split
  · exact (Clauses.sublist_optional _ [_]).2
  · exact List.sublist_cons_self _ _

theorem sublist_clauses_nested (root : String) (base : Path) (s : Property) (sub rest : View) :
    (Path.toVariable root (base ++ [s.name]) :: (sub.clauses root (base ++ [s.name])).all).Sublist
        ((nested s sub rest).clauses root base).all ∧
      (rest.clauses root base).all.Sublist ((nested s sub rest).clauses root base).all := by
  rw [clauses]
  split
  · exact Clauses.sublist_optional _ _
  · exact Clauses.sublist_nested _ _

theorem mem_clauses (root : String) (base : Path) (h : p ∈ v.paths) :
    Path.toVariable root (base ++ p) ∈ (v.clauses root base).all := by
  rw [(perm_clauses root v base).mem_iff, pathsUnder_eq, List.map_map]
  exact List.mem_map.2 ⟨p, h, rfl⟩

/-- **A path comes after its beginnings** among the variables of a view. -/
theorem sublist_clauses (root : String) : ∀ {v : View} {p q : Path} (base : Path), p ∈ v.paths →
    q ≠ [] → q <+: p → q ≠ p →
      [Path.toVariable root (base ++ q), Path.toVariable root (base ++ p)].Sublist
        (v.clauses root base).all
  | leaf s rest, p, q, base, hp, hq, hbegin, hne => by
    rcases mem_paths_leaf.1 hp with rfl | hp
    · exact absurd (hbegin.eq_of_length_le (List.length_pos_iff.2 hq)) hne
    · exact (sublist_clauses root base hp hq hbegin hne).trans (sublist_clauses_leaf root base s rest)
  | nested s sub rest, p, q, base, hp, hq, hbegin, hne => by
    rcases mem_paths_nested.1 hp with rfl | ⟨below, hbelow, rfl⟩ | hp
    · exact absurd (hbegin.eq_of_length_le (List.length_pos_iff.2 hq)) hne
    · refine List.Sublist.trans ?_ (sublist_clauses_nested root base s sub rest).1
      obtain ⟨more, rfl, hmore⟩ := (List.prefix_cons_iff.1 hbegin).resolve_left hq
      have hassoc : ∀ r : Path, base ++ s.name :: r = base ++ [s.name] ++ r := by simp
      rw [hassoc below]
      rcases eq_or_ne more [] with rfl | hmorene
      · -- the entry itself, in front of what is below it
        exact (List.singleton_sublist.2 (mem_clauses root _ hbelow)).cons_cons _
      · rw [hassoc more]
        refine (sublist_clauses root _ hbelow hmorene hmore fun h => hne ?_).cons _
        rw [h]
    · exact (sublist_clauses root base hp hq hbegin hne).trans
        (sublist_clauses_nested root base s sub rest).2

/-- **The column of a path comes after those of its beginnings.** -/
theorem sublist_columns (hv : v.WellFormed) (hroot : ∀ p ∈ v.paths, Path.toVariable root p ≠ root)
    (hp : p ∈ v.paths) (hq : q ∈ v.paths) (hbegin : q <+: p) (hne : q ≠ p) :
    [(Path.toVariable root q, q), (Path.toVariable root p, p)].Sublist (v.columns root) := by
  have hvars := (sublist_clauses root [] hp (ne_nil_of_mem_paths hq) hbegin hne).cons root
  have hkept := (hvars.filter (· ≠ root)).map fun name => (name, Path.ofVariable root name)
  have hread := fun {r : Path} (hr : r ∈ v.paths) => ofVariable_of_mem_paths hv hr (hroot r hr)
  simpa [columns, vars, hroot q hq, hroot p hp, hread hq, hread hp] using hkept

/-- **The columns in front of one have the beginnings of its path.** -/
theorem mem_front_columns (hv : v.WellFormed) (hroot : ∀ p ∈ v.paths, Path.toVariable root p ≠ root)
    {front back : List (String × Path)}
    (hcolumns : v.columns root = front ++ (Path.toVariable root p, p) :: back) (hp : p ∈ v.paths)
    (hq : q ∈ v.paths) (hbegin : q <+: p) (hne : q ≠ p) : (Path.toVariable root q, q) ∈ front := by
  have hsublist := sublist_columns hv hroot hp hq hbegin hne
  have hnodup : (v.columns root).Nodup := by
    refine .of_map (·.2) ?_
    rw [(perm_map_snd_columns hv hroot).nodup_iff]
    exact nodup_paths hv
  rw [hcolumns] at hsublist hnodup
  have hlast : (Path.toVariable root p, p) ∉ back :=
    (List.nodup_cons.1 (List.nodup_append'.1 hnodup).2.1).1
  obtain ⟨before, behind, hpair, hbefore, hbehind⟩ := List.sublist_append_iff.1 hsublist
  rcases before with _ | ⟨c, before⟩
  · -- both columns cannot stand from the second one on
    rw [List.nil_append] at hpair
    subst hpair
    rcases List.sublist_cons_iff.1 hbehind with hboth | ⟨more, hmore, hback⟩
    · exact absurd (hboth.subset (by simp)) hlast
    · obtain ⟨-, rfl⟩ := List.cons.inj hmore
      exact absurd (hback.subset (by simp)) hlast
  · obtain ⟨rfl, -⟩ := List.cons.inj hpair
    exact hbefore.subset List.mem_cons_self

end View

end SparqlViews
