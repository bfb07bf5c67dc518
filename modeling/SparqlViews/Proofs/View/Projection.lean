import SparqlViews.Proofs.View.Paths
import SparqlViews.View.Projection

/-! # What a projection keeps

A projection onto some paths keeps these, the paths that lead to them and those that go on from them, in the
order in which they were (`View.pathsUnder_projectUnder`), and the settings of every entry that it keeps
(`View.find?_projectUnder`). What a list names of a view is unchanged by a second projection
(`View.projectUnder_projectUnder`).

* `Path.isKept`: the path is kept.
* `View.Fits`: the list names what the view has, of the view and not of what is above.
* `Entry.project?`: what becomes of one entry.
-/

namespace SparqlViews

namespace Path

variable {keep : List Path} {p q : Path}

/-- **The path is kept**: it leads to a path of the list, is on it, or goes on from one. -/
def isKept (keep : List Path) (p : Path) : Bool :=
  keep.any fun q => p.isPrefixOf q || q.isPrefixOf p

theorem isKept_iff : isKept keep p ↔ ∃ q ∈ keep, p <+: q ∨ q <+: p := by
  simp [isKept]

theorem isKept_of_mem (h : p ∈ keep) : isKept keep p :=
  isKept_iff.2 ⟨p, h, .inl List.prefix_rfl⟩

theorem isKept_of_prefix (h : q ∈ keep) (hqp : q <+: p) : isKept keep p :=
  isKept_iff.2 ⟨q, h, .inr hqp⟩

/-- If no path of the list ends at `base` or above, one that ends at an entry there or above is that entry's. -/
theorem eq_of_prefix_concat {base : Path} {name : String} (habove : ∀ q ∈ keep, ¬ q <+: base)
    (hq : q ∈ keep) (hleads : q <+: base ++ [name]) : q = base ++ [name] :=
  (List.prefix_concat_iff.1 hleads).resolve_right (habove q hq)

end Path

namespace Entry

variable {keep : List Path} {base path : Path} {e e' : Entry}

/-- **What becomes of an entry** of a view at `base`. -/
def project? (keep : List Path) (base : Path) (e : Entry) : Option Entry :=
  let here := base ++ [e.name]
  if keep.contains here then some e
  else e.sub.bind fun sub =>
    if keep.any fun q => here.isPrefixOf q then
      some ⟨e.property, some (sub.projectUnder keep here)⟩
    else none

/-- **What is left of an entry at a path**: all of it, or, where no path of the list ends there or above, its
settings and the projection of its view. -/
def IsLeftOf (keep : List Path) (path : Path) (e e' : Entry) : Prop :=
  e' = e ∨ (∀ q ∈ keep, ¬ q <+: path) ∧
    ∃ sub, e.sub = some sub ∧ e' = ⟨e.property, some (sub.projectUnder keep path)⟩

theorem name_of_project? (h : e.project? keep base = some e') : e'.name = e.name := by
  unfold project? at h
  dsimp only at h
  split at h
  · rw [Option.some.inj h]
  · obtain ⟨sub, -, h⟩ := Option.bind_eq_some_iff.1 h
    split at h
    · rw [← Option.some.inj h]
      rfl
    · cases h

theorem isLeftOf_of_project? (habove : ∀ q ∈ keep, ¬ q <+: base) (h : e.project? keep base = some e') :
    IsLeftOf keep (base ++ [e.name]) e e' := by
  unfold project? at h
  dsimp only at h
  split at h
  · exact .inl (Option.some.inj h).symm
  · rename_i hhere
    obtain ⟨sub, hsub, h⟩ := Option.bind_eq_some_iff.1 h
    split at h
    · refine .inr ⟨fun q hq hleads => hhere ?_, sub, hsub, (Option.some.inj h).symm⟩
      rw [List.contains_iff_mem, ← Path.eq_of_prefix_concat habove hq hleads]
      exact hq
    · cases h

namespace IsLeftOf

theorem property_eq (h : IsLeftOf keep path e e') : e'.property = e.property := by
  rcases h with rfl | ⟨-, sub, -, rfl⟩
  · rfl
  · rfl

theorem isNested_eq (h : IsLeftOf keep path e e') : e'.isNested = e.isNested := by
  rcases h with rfl | ⟨-, sub, hsub, rfl⟩
  · rfl
  · simp [isNested, hsub]

theorem eq_of_prefix (h : IsLeftOf keep path e e') {q : Path} (hq : q ∈ keep) (hleads : q <+: path) :
    e' = e :=
  h.resolve_right fun hleft => hleft.1 q hq hleads

end IsLeftOf

end Entry

namespace View

variable {keep : List Path} {base : Path} {v sub rest : View} {p : Property} {name : String}
  {e e' : Entry}

/-! ### The list and the view -/

/-- **The list fits a view at `base`**: no path on it ends at the view or above, and those that go on with
the name of an entry are paths of the view. -/
structure Fits (keep : List Path) (base : Path) (v : View) : Prop where
  above : ∀ q ∈ keep, ¬ q <+: base
  found : ∀ name q, base ++ name :: q ∈ keep → name ∈ v.names → name :: q ∈ v.paths

theorem fits_of_forall_mem (h : ∀ p ∈ keep, p ∈ v.paths) : Fits keep [] v where
  above q hq hnil := ne_nil_of_mem_paths (h q hq) (List.prefix_nil.1 hnil)
  found name q hq _ := h (name :: q) hq

namespace Fits

theorem of_leaf (hname : p.name ∉ rest.names) (h : Fits keep base (leaf p rest)) :
    Fits keep base rest where
  above := h.above
  found name q hq hmem := by
    have hne : name ≠ p.name := fun heq => hname (heq ▸ hmem)
    have hpath := mem_paths_leaf.1 (h.found name q hq (List.mem_cons_of_mem _ hmem))
    exact hpath.resolve_left fun heq => hne (List.cons.inj heq).1

theorem of_nested (hname : p.name ∉ rest.names) (h : Fits keep base (nested p sub rest)) :
    Fits keep base rest where
  above := h.above
  found name q hq hmem := by
    have hne : name ≠ p.name := fun heq => hname (heq ▸ hmem)
    have hpath := h.found name q hq (List.mem_cons_of_mem _ hmem)
    rcases mem_paths_nested.1 hpath with heq | ⟨r, -, heq⟩ | hpath
    · exact absurd (List.cons.inj heq).1 hne
    · exact absurd (List.cons.inj heq).1.symm hne
    · exact hpath

theorem enter (hname : p.name ∉ rest.names) (h : Fits keep base (nested p sub rest))
    (hhere : base ++ [p.name] ∉ keep) : Fits keep (base ++ [p.name]) sub where
  above q hq hleads := hhere (Path.eq_of_prefix_concat h.above hq hleads ▸ hq)
  found name q hq _ := by
    rw [List.append_assoc, List.singleton_append] at hq
    have hpath := h.found p.name (name :: q) hq List.mem_cons_self
    rcases mem_paths_nested.1 hpath with heq | ⟨r, hr, heq⟩ | hpath
    · exact absurd (List.cons.inj heq).2 (List.cons_ne_nil _ _)
    · rwa [(List.cons.inj heq).2] at hr
    · exact absurd hpath (not_mem_paths_of_name hname _)

theorem eq_of_leaf (hname : p.name ∉ rest.names) (h : Fits keep base (leaf p rest)) {q : Path}
    (hq : q ∈ keep) (hleads : base ++ [p.name] <+: q) : q = base ++ [p.name] := by
  obtain ⟨more, rfl⟩ := hleads
  rw [List.append_assoc, List.singleton_append] at hq
  have hpath := h.found p.name more hq List.mem_cons_self
  rcases mem_paths_leaf.1 hpath with heq | hpath
  · rw [(List.cons.inj heq).2, List.append_nil]
  · exact absurd hpath (not_mem_paths_of_name hname _)

theorem isKept_iff (h : Fits keep base v) (name : String) :
    Path.isKept keep (base ++ [name]) ↔ keep.any fun q => (base ++ [name]).isPrefixOf q := by
  rw [Path.isKept_iff, List.any_eq_true]
  refine exists_congr fun q => and_congr_right fun hq => ?_
  rw [List.isPrefixOf_iff_prefix, or_iff_left_iff_imp]
  intro hleads
  exact (Path.eq_of_prefix_concat h.above hq hleads) ▸ List.prefix_rfl

end Fits

/-! ### The paths of a projection -/

theorem prefix_of_mem_pathsUnder {q : Path} (h : q ∈ v.pathsUnder base) : base <+: q := by
  rw [pathsUnder_eq, List.mem_map] at h
  obtain ⟨r, -, rfl⟩ := h
  exact List.prefix_append base r

theorem filter_pathsUnder_of_mem (h : base ∈ keep) :
    (v.pathsUnder base).filter (Path.isKept keep) = v.pathsUnder base :=
  List.filter_eq_self.2 fun _ hq => Path.isKept_of_prefix h (prefix_of_mem_pathsUnder hq)

theorem filter_pathsUnder_of_not_kept (h : ¬ Path.isKept keep base) :
    (v.pathsUnder base).filter (Path.isKept keep) = [] := by
  refine List.filter_eq_nil_iff.2 fun q hq hkept => h ?_
  have hbase := prefix_of_mem_pathsUnder hq
  obtain ⟨r, hr, hqr | hrq⟩ := Path.isKept_iff.1 hkept
  · exact Path.isKept_iff.2 ⟨r, hr, .inl (hbase.trans hqr)⟩
  · exact Path.isKept_iff.2 ⟨r, hr, List.prefix_or_prefix_of_prefix hbase hrq⟩

/-- **The paths of a projection** are those that are kept, in their order. -/
theorem pathsUnder_projectUnder : ∀ {v : View} {base : Path}, v.WellFormed → Fits keep base v →
    (v.projectUnder keep base).pathsUnder base = (v.pathsUnder base).filter (Path.isKept keep)
  | empty, base, _, _ => rfl
  | leaf p rest, base, hv, h => by
    have ih := pathsUnder_projectUnder hv.2.2 (h.of_leaf hv.2.1)
    have hkept : Path.isKept keep (base ++ [p.name]) ↔ base ++ [p.name] ∈ keep := by
      refine ⟨fun hkept => ?_, Path.isKept_of_mem⟩
      obtain ⟨q, hq, hleads⟩ := List.any_eq_true.1 ((h.isKept_iff p.name).1 hkept)
      rwa [← h.eq_of_leaf hv.2.1 hq (List.isPrefixOf_iff_prefix.1 hleads)]
    rw [projectUnder, pathsUnder, List.filter_cons]
    simp only [hkept]
    split
    · rw [pathsUnder, ih]
    · exact ih
  | nested p sub rest, base, hv, h => by
    have ih := pathsUnder_projectUnder hv.2.2.2 (h.of_nested hv.2.1)
    rw [projectUnder, pathsUnder, List.filter_cons, List.filter_append]
    split
    · -- on the list: all below it stays, whatever else the list says of it
      rename_i hhere
      rw [if_pos (Path.isKept_of_mem hhere), filter_pathsUnder_of_mem hhere, pathsUnder, ih]
    · -- not on the list: its view is reduced if the list goes on there, and nothing stays otherwise
      rename_i hhere
      have ihsub := pathsUnder_projectUnder hv.2.2.1 (h.enter hv.2.1 hhere)
      simp only [h.isKept_iff]
      split
      · rw [pathsUnder, ihsub, ih]
      · rename_i hkept
        rw [filter_pathsUnder_of_not_kept fun hbase => hkept ((h.isKept_iff p.name).1 hbase),
          List.nil_append, ih]

/-! ### The names of a projection -/

theorem names_projectUnder (keep : List Path) (base : Path) : ∀ v : View,
    (v.projectUnder keep base).names.Sublist v.names
  | empty => List.Sublist.refl _
  | leaf p rest => by
    have ih := names_projectUnder keep base rest
    rw [projectUnder]
    split
    · exact ih.cons_cons _
    · exact ih.cons _
  | nested p sub rest => by
    have ih := names_projectUnder keep base rest
    rw [projectUnder]
    split
    · exact ih.cons_cons _
    · split
      · exact ih.cons_cons _
      · exact ih.cons _

theorem WellFormed.projectUnder : ∀ {v : View}, v.WellFormed → ∀ (keep : List Path) (base : Path),
    (v.projectUnder keep base).WellFormed
  | empty, _, _, _ => trivial
  | leaf p rest, hv, keep, base => by
    have ih := hv.2.2.projectUnder keep base
    have hname := fun h => hv.2.1 ((names_projectUnder keep base rest).subset h)
    rw [View.projectUnder]
    split
    · exact ⟨hv.1, hname, ih⟩
    · exact ih
  | nested p sub rest, hv, keep, base => by
    have ih := hv.2.2.2.projectUnder keep base
    have ihsub := hv.2.2.1.projectUnder keep (base ++ [p.name])
    have hname := fun h => hv.2.1 ((names_projectUnder keep base rest).subset h)
    rw [View.projectUnder]
    split
    · exact ⟨hv.1, hname, hv.2.2.1, ih⟩
    · split
      · exact ⟨hv.1, hname, ihsub, ih⟩
      · exact ih

/-- **A second projection changes nothing.** -/
theorem projectUnder_projectUnder : ∀ (v : View) (base : Path),
    (v.projectUnder keep base).projectUnder keep base = v.projectUnder keep base
  | empty, _ => rfl
  | leaf p rest, base => by
    have ih := projectUnder_projectUnder rest base
    by_cases hhere : base ++ [p.name] ∈ keep <;> simp [projectUnder, hhere, ih]
  | nested p sub rest, base => by
    have ih := projectUnder_projectUnder rest base
    have ihsub := projectUnder_projectUnder sub (base ++ [p.name])
    by_cases hhere : base ++ [p.name] ∈ keep
    · simp [projectUnder, hhere, ih]
    · by_cases hgoes : keep.any fun q => (base ++ [p.name]).isPrefixOf q
      · simp only [projectUnder, if_neg hhere, if_pos hgoes, ih, ihsub]
      · simp only [projectUnder, if_neg hhere, if_neg hgoes, ih]

/-! ### The entries of a projection -/

theorem get?_eq_none_of_not_mem (h : name ∉ v.names) : v.get? name = none := by
  rwa [← Option.not_isSome_iff_eq_none, get?_isSome]

@[simp] theorem get?_cons (e : Entry) (v : View) (name : String) :
    (cons e v).get? name = if e.name = name then some e else v.get? name := by
  obtain ⟨p, _ | sub⟩ := e
  · exact get?_leaf p v name
  · exact get?_nested p sub v name

theorem projectUnder_cons (keep : List Path) (base : Path) (e : Entry) (rest : View) :
    (cons e rest).projectUnder keep base =
      match e.project? keep base with
      | some e' => cons e' (rest.projectUnder keep base)
      | none => rest.projectUnder keep base := by
  obtain ⟨p, _ | sub⟩ := e
  · by_cases hhere : base ++ [p.name] ∈ keep
    · simp [cons, projectUnder, Entry.project?, Entry.name, hhere]
    · simp [cons, projectUnder, Entry.project?, Entry.name, hhere]
  · by_cases hhere : base ++ [p.name] ∈ keep
    · simp [cons, projectUnder, Entry.project?, Entry.name, hhere]
    cases hgoes : keep.any fun q => (base ++ [p.name]).isPrefixOf q with
    | true =>
      simp only [cons, projectUnder, Entry.project?, Entry.name, List.contains_iff_mem, hhere, hgoes,
        if_false, if_true, Option.bind_some]
    | false =>
      simp only [cons, projectUnder, Entry.project?, Entry.name, List.contains_iff_mem, hhere, hgoes,
        Bool.false_eq_true, if_false, Option.bind_some]

theorem get?_projectUnder_cons (hname : e.name ∉ rest.names)
    (ih : (rest.projectUnder keep base).get? name =
      (rest.get? name).bind (Entry.project? keep base)) :
    ((cons e rest).projectUnder keep base).get? name =
      ((cons e rest).get? name).bind (Entry.project? keep base) := by
  rw [projectUnder_cons, get?_cons]
  by_cases h : e.name = name
  · rw [if_pos h, Option.bind_some]
    cases hproject : e.project? keep base with
    | none => rw [ih, get?_eq_none_of_not_mem (h ▸ hname), Option.bind_none]
    | some e' => rw [get?_cons, if_pos ((Entry.name_of_project? hproject).trans h)]
  · rw [if_neg h, ← ih]
    cases hproject : e.project? keep base with
    | none => rfl
    | some e' => rw [get?_cons, if_neg fun he' => h ((Entry.name_of_project? hproject).symm.trans he')]

/-- **The entry of a name in a projection** is what becomes of that of the view. -/
theorem get?_projectUnder : ∀ {v : View}, v.WellFormed →
    (v.projectUnder keep base).get? name = (v.get? name).bind (Entry.project? keep base)
  | empty, _ => rfl
  | leaf p _, hv => get?_projectUnder_cons (e := ⟨p, none⟩) hv.2.1 (get?_projectUnder hv.2.2)
  | nested p sub _, hv =>
    get?_projectUnder_cons (e := ⟨p, some sub⟩) hv.2.1 (get?_projectUnder hv.2.2.2)

/-- **The entries of a projection** are what is left of those of the view. -/
theorem find?_projectUnder {path : Path} (hv : v.WellFormed) (habove : ∀ q ∈ keep, ¬ q <+: base)
    (h : (v.projectUnder keep base).find? path = some e') :
    ∃ e, v.find? path = some e ∧ Entry.IsLeftOf keep (base ++ path) e e' := by
  induction path generalizing v base with
  | nil => simp at h
  | cons name path ih =>
    -- what is left of the first entry on the path
    have hfirst : ∀ {f'}, (v.projectUnder keep base).get? name = some f' →
        ∃ f, v.get? name = some f ∧ Entry.IsLeftOf keep (base ++ [name]) f f' := by
      intro f' hf'
      rw [get?_projectUnder hv] at hf'
      obtain ⟨f, hf, hleft⟩ := Option.bind_eq_some_iff.1 hf'
      exact ⟨f, hf, name_of_get? hf ▸ Entry.isLeftOf_of_project? habove hleft⟩
    rcases eq_or_ne path [] with rfl | hpath
    · simpa using hfirst (by simpa using h)
    rw [find?_cons _ name hpath] at h
    obtain ⟨f', hf', h⟩ := Option.bind_eq_some_iff.1 h
    obtain ⟨sub', hsub', h⟩ := Option.bind_eq_some_iff.1 h
    obtain ⟨f, hf, rfl | ⟨hhere, sub, hsub, rfl⟩⟩ := hfirst hf'
    · refine ⟨e', ?_, .inl rfl⟩
      rw [find?_cons _ name hpath, hf, Option.bind_some, hsub', Option.bind_some, h]
    · cases hsub'
      obtain ⟨e, he, hleft⟩ := ih ((hv.of_get? hf).2 sub hsub) hhere h
      rw [List.append_assoc, List.singleton_append] at hleft
      refine ⟨e, ?_, hleft⟩
      rw [find?_cons _ name hpath, hf, Option.bind_some, hsub, Option.bind_some, he]

/-! ### Answers -/

theorem project_eq (hv : v.WellFormed) (keep : List Path) :
    v.project keep =
      match keep.find? fun p => p ∉ v.paths with
      | some p => .error (.pathNotFound (Path.toDotted p))
      | none => .ok (v.projectUnder keep []) := by
  have hmissing : (fun p => (v.find? p).isNone) = fun p => decide (p ∉ v.paths) := by
    funext p
    simp only [mem_paths_iff hv, Bool.not_eq_true, Option.isSome_eq_false_iff, Bool.decide_eq_true]
  rw [← hmissing]
  rfl

theorem project_eq_ok_iff {w : View} (hv : v.WellFormed) :
    v.project keep = .ok w ↔ (∀ p ∈ keep, p ∈ v.paths) ∧ w = v.projectUnder keep [] := by
  have hall : (keep.find? fun p => p ∉ v.paths) = none ↔ ∀ p ∈ keep, p ∈ v.paths := by simp
  rw [project_eq hv, ← hall]
  cases hfirst : keep.find? fun p => p ∉ v.paths with
  | none => simp [eq_comm]
  | some p => simp

theorem project_eq_error_iff {error : ViewError} (hv : v.WellFormed) :
    v.project keep = .error error ↔ ∃ before p after, keep = before ++ p :: after ∧
      (∀ q ∈ before, q ∈ v.paths) ∧ p ∉ v.paths ∧ error = .pathNotFound (Path.toDotted p) := by
  have hfirst : ∀ p, (keep.find? fun p => p ∉ v.paths) = some p ↔
      p ∉ v.paths ∧ ∃ before after, keep = before ++ p :: after ∧ ∀ q ∈ before, q ∈ v.paths := by
    intro p
    rw [List.find?_eq_some_iff_append]
    simp
  rw [project_eq hv]
  constructor
  · split
    · rename_i p hp
      intro h
      obtain ⟨hmissing, before, after, hkeep, hbefore⟩ := (hfirst p).1 hp
      exact ⟨before, p, after, hkeep, hbefore, hmissing, (Except.error.inj h).symm⟩
    · intro h
      cases h
  · rintro ⟨before, p, after, hkeep, hbefore, hmissing, rfl⟩
    rw [(hfirst p).2 ⟨hmissing, before, after, hkeep, hbefore⟩]

/-- **A projection keeps the paths of its list, those above and those below.** It exists exactly if the view has
every path of the list; otherwise the first that it has not is reported. The kept paths stay in their order
and the kept entries keep their settings; an entry on or below a path of the list stays whole. The projection
is well-formed, and a second one changes nothing. -/
theorem named_paths_kept (hv : v.WellFormed) (keep : List Path) :
    ((∃ w, v.project keep = .ok w) ↔ ∀ p ∈ keep, p ∈ v.paths) ∧
    (∀ error, v.project keep = .error error ↔ ∃ before p after, keep = before ++ p :: after ∧
      (∀ q ∈ before, q ∈ v.paths) ∧ p ∉ v.paths ∧ error = .pathNotFound (Path.toDotted p)) ∧
    ∀ w, v.project keep = .ok w →
      w.paths = v.paths.filter (Path.isKept keep) ∧
      (∀ p ∈ v.paths, Path.isKept keep p → ∃ e e', v.find? p = some e ∧ w.find? p = some e' ∧
        e'.property = e.property ∧ e'.isNested = e.isNested ∧
        ((∃ q ∈ keep, q <+: p) → e' = e)) ∧
      w.WellFormed ∧ w.project keep = .ok w := by
  refine ⟨?_, fun error => project_eq_error_iff hv, fun w hw => ?_⟩
  · simp only [project_eq_ok_iff hv, exists_and_left, exists_eq, and_true]
  obtain ⟨hall, rfl⟩ := (project_eq_ok_iff hv).1 hw
  have hfits := fits_of_forall_mem hall
  have hwell : (v.projectUnder keep []).WellFormed := hv.projectUnder keep []
  have hpaths : (v.projectUnder keep []).paths = v.paths.filter (Path.isKept keep) :=
    pathsUnder_projectUnder hv hfits
  refine ⟨hpaths, fun p hp hkept => ?_, hwell, ?_⟩
  · have hmem : p ∈ (v.projectUnder keep []).paths := by
      rw [hpaths]
      exact List.mem_filter.2 ⟨hp, hkept⟩
    obtain ⟨e', he'⟩ := Option.isSome_iff_exists.1 ((mem_paths_iff hwell).1 hmem)
    obtain ⟨e, he, hleft⟩ := find?_projectUnder hv hfits.above he'
    exact ⟨e, e', he, he', hleft.property_eq, hleft.isNested_eq,
      fun ⟨q, hq, hleads⟩ => hleft.eq_of_prefix hq hleads⟩
  · refine (project_eq_ok_iff hwell).2 ⟨fun p hp => ?_, (projectUnder_projectUnder v []).symm⟩
    rw [hpaths]
    exact List.mem_filter.2 ⟨hall p hp, Path.isKept_of_mem hp⟩

/-- An address within a country, a phone, and an owner. -/
def siteView : View :=
  .nested { name := "address", iri := "http://e/address" }
    (.leaf { name := "city", iri := "http://e/city" }
      (.nested { name := "country", iri := "http://e/country" }
        (.leaf { name := "code", iri := "http://e/code" }
          (.leaf { name := "name", iri := "http://e/name" } .empty)) .empty))
    (.leaf { name := "phone", iri := "http://e/phone" }
      (.nested { name := "owner", iri := "http://e/owner" }
        (.leaf { name := "name", iri := "http://e/name" }
          (.leaf { name := "age", iri := "http://e/age" } .empty)) .empty))

/-- A list in another order, with a path twice and a path below another one, and a list with two paths that
are missing. -/
theorem named_paths_kept_of_owner :
    let keep := [["owner", "name"], ["address", "country", "code"], ["address", "country"], ["owner", "name"]]
    siteView.WellFormed ∧ (∃ w, siteView.project keep = .ok w ∧ w.WellFormed ∧
      w.paths = [["address"], ["address", "country"], ["address", "country", "code"],
        ["address", "country", "name"], ["owner"], ["owner", "name"]] ∧
      w.project keep = .ok w) ∧
    siteView.project [["phone"], ["owner", "phone"], ["fax"]] = .error (.pathNotFound "owner.phone") := by
  intro keep
  have hv : siteView.WellFormed := by decide
  obtain ⟨hok, -, hkept⟩ := named_paths_kept hv keep
  obtain ⟨w, hw⟩ := hok.2 (by decide)
  obtain ⟨hpaths, -, hwell, hagain⟩ := hkept w hw
  obtain ⟨-, herror, -⟩ := named_paths_kept hv [["phone"], ["owner", "phone"], ["fax"]]
  refine ⟨hv, ⟨w, hw, hwell, hpaths.trans (by decide), hagain⟩, (herror _).2 ?_⟩
  exact ⟨[["phone"]], ["owner", "phone"], [["fax"]], rfl, by decide, by decide, by decide⟩

end View

end SparqlViews
