import SparqlViews.Proofs.Endpoint.RootVariable
import SparqlViews.Proofs.Pattern.Groups

/-! # The pattern of a view is the view

Every path of a view has one triple in the pattern of the view, in the groups of the optional entries
along the path, and the pattern has nothing else. Up to order the pattern goes entry by entry
(`perm_patternAt_leaf`, `perm_patternAt_nested`), as the view does, so that each fact about the whole
pattern is an induction over the view, at any base.

* `View.triple?`, `View.optionals`: the triple of a path, and the optional entries along it.
* `perm_placedAll_patternAt`, `perm_groupsAll_patternAt`: the triples and the groups of a pattern.
* `partsBound_compileUnder`: each subject is known where it stands.
* `elements_mandatory`, `perm_vars_mandatory`: the part that every entity must match.
* `chainFrom?_eq`: the triples along a path are those of its beginnings.
* `pattern_is_view`: all of it for the pattern around the root.
-/

namespace SparqlViews

open Element

theorem Path.beginnings_cons (name : String) {q : Path} (hq : q ≠ []) :
    ancestors (name :: q) ++ [name :: q] = [name] :: (ancestors q ++ [q]).map (name :: ·) := by
  rw [ancestors_cons name hq, List.map_append]
  rfl

namespace View

variable {v w sub rest : View} {p : Property} {root name : String} {base q r : Path} {o : Option View}

/-- The triple of a path, for a view that stands at `base`. -/
def tripleAt (root : String) (base : Path) (v : View) (q : Path) : Option Triple :=
  (v.find? q).map fun e =>
    ⟨Path.toVariable root (base ++ q.dropLast), e.property.iri, Path.toVariable root (base ++ q)⟩

/-- **The triple of a path**: from the variable of its parent, by the property of its entry, to its own
variable. -/
def triple? (root : String) (v : View) (q : Path) : Option Triple :=
  (v.find? q).map fun e =>
    ⟨Path.toVariable root q.dropLast, e.property.iri, Path.toVariable root q⟩

/-- The entry of a path is optional. -/
def isOptional (v : View) (q : Path) : Bool := (v.find? q).any fun e => e.property.optional

/-- **The optional entries along a path**, from the top. -/
def optionals (v : View) (q : Path) : List Path := (Path.ancestors q ++ [q]).filter v.isOptional

/-- No entry along a path is optional. -/
def isMandatory (v : View) (q : Path) : Bool := (v.optionals q).isEmpty

/-- The triple of a path in the groups of the optional entries along it. -/
def positionAt (root : String) (base : Path) (v : View) (q : Path) : Position :=
  ((v.optionals q).map (v.tripleAt root base), v.tripleAt root base q)

/-! ### Going by the first name -/

theorem get?_leaf_self (p : Property) (rest : View) : (leaf p rest).get? p.name = some ⟨p, none⟩ := by
  simp

theorem get?_nested_self (p : Property) (sub rest : View) :
    (nested p sub rest).get? p.name = some ⟨p, some sub⟩ := by
  simp

theorem isOptional_congr (h : v.get? name = w.get? name) (q : Path) :
    v.isOptional (name :: q) = w.isOptional (name :: q) := by
  rw [isOptional, isOptional, find?_congr h]

theorem tripleAt_congr (h : v.get? name = w.get? name) (q : Path) :
    v.tripleAt root base (name :: q) = w.tripleAt root base (name :: q) := by
  rw [tripleAt, tripleAt, find?_congr h]

theorem exists_of_mem_beginnings (h : r ∈ Path.ancestors (name :: q) ++ [name :: q]) :
    ∃ more, r = name :: more := by
  obtain ⟨hne, hbegin⟩ := (Path.mem_ancestors_append (List.cons_ne_nil name q)).1 h
  rcases List.prefix_cons_iff.1 hbegin with rfl | ⟨more, rfl, -⟩
  · exact absurd rfl hne
  · exact ⟨more, rfl⟩

theorem optionals_congr (h : v.get? name = w.get? name) (q : Path) :
    v.optionals (name :: q) = w.optionals (name :: q) := by
  refine List.filter_congr fun r hr => ?_
  obtain ⟨more, rfl⟩ := exists_of_mem_beginnings hr
  exact isOptional_congr h more

theorem positionAt_congr (h : v.get? name = w.get? name) (q : Path) :
    v.positionAt root base (name :: q) = w.positionAt root base (name :: q) := by
  have htriples : (w.optionals (name :: q)).map (v.tripleAt root base) =
      (w.optionals (name :: q)).map (w.tripleAt root base) := by
    refine List.map_congr_left fun r hr => ?_
    obtain ⟨more, rfl⟩ := exists_of_mem_beginnings (List.mem_of_mem_filter hr)
    exact tripleAt_congr h more
  rw [positionAt, positionAt, optionals_congr h, htriples, tripleAt_congr h]

theorem map_paths_congr {α : Type} {f g : Path → α} (hname : p.name ∉ rest.names)
    (h : ∀ name q, p.name ≠ name → f (name :: q) = g (name :: q)) :
    rest.paths.map f = rest.paths.map g := by
  refine List.map_congr_left fun q hq => ?_
  obtain ⟨name, more, rfl, hne⟩ := exists_cons_of_mem_rest hname hq
  exact h name more hne.symm

theorem filter_paths_congr {f g : Path → Bool} (hname : p.name ∉ rest.names)
    (h : ∀ name q, p.name ≠ name → f (name :: q) = g (name :: q)) :
    rest.paths.filter f = rest.paths.filter g := by
  refine List.filter_congr fun q hq => ?_
  obtain ⟨name, more, rfl, hne⟩ := exists_cons_of_mem_rest hname hq
  exact h name more hne.symm

theorem map_filter_paths_congr (hname : p.name ∉ rest.names)
    (h : ∀ name, p.name ≠ name → v.get? name = rest.get? name) :
    (rest.paths.filter v.isOptional).map (v.tripleAt root base) =
      (rest.paths.filter rest.isOptional).map (rest.tripleAt root base) := by
  rw [filter_paths_congr hname fun name q hne => isOptional_congr (h name hne) q]
  refine List.map_congr_left fun q hq => ?_
  obtain ⟨name, more, rfl, hne⟩ := exists_cons_of_mem_rest hname (List.mem_of_mem_filter hq)
  exact tripleAt_congr (h name hne.symm) more

section Own
variable (hget : v.get? p.name = some ⟨p, o⟩)
include hget

theorem tripleAt_own : v.tripleAt root base [p.name] =
    some ⟨Path.toVariable root base, p.iri, Path.toVariable root (base ++ [p.name])⟩ := by
  simp [tripleAt, hget]

theorem isOptional_own : v.isOptional [p.name] = p.optional := by
  simp [isOptional, hget]

theorem optionals_own : v.optionals [p.name] = if p.optional then [[p.name]] else [] := by
  have hbegin : Path.ancestors [p.name] ++ [[p.name]] = [[p.name]] := rfl
  rw [optionals, hbegin, List.filter_cons, isOptional_own hget, List.filter_nil]

theorem isMandatory_own : v.isMandatory [p.name] = !p.optional := by
  rw [isMandatory, optionals_own hget]
  cases p.optional <;> rfl

theorem positionAt_own : v.positionAt root base [p.name] =
    under (if p.optional then [v.tripleAt root base [p.name]] else [])
      ([], v.tripleAt root base [p.name]) := by
  rw [positionAt, optionals_own hget]
  cases p.optional <;> rfl

end Own

section Below
variable (hget : v.get? p.name = some ⟨p, some sub⟩) (hq : q ≠ [])
include hget hq

theorem find?_below : v.find? (p.name :: q) = sub.find? q := by
  rw [find?_cons v p.name hq, hget]
  rfl

theorem isOptional_below : v.isOptional (p.name :: q) = sub.isOptional q := by
  rw [isOptional, find?_below hget hq, isOptional]

theorem tripleAt_below :
    v.tripleAt root base (p.name :: q) = sub.tripleAt root (base ++ [p.name]) q := by
  have hassoc : ∀ r : Path, base ++ p.name :: r = base ++ [p.name] ++ r := by simp
  rw [tripleAt, find?_below hget hq, List.dropLast_cons_of_ne_nil hq, hassoc q.dropLast, hassoc q,
    tripleAt]

theorem optionals_below : v.optionals (p.name :: q) =
    (if p.optional then [[p.name]] else []) ++ (sub.optionals q).map (p.name :: ·) := by
  have hrest : ((Path.ancestors q ++ [q]).map (p.name :: ·)).filter v.isOptional =
      (sub.optionals q).map (p.name :: ·) := by
    rw [List.filter_map, optionals]
    refine congrArg _ (List.filter_congr fun r hr => ?_)
    exact isOptional_below hget ((Path.mem_ancestors_append hq).1 hr).1
  rw [optionals, Path.beginnings_cons p.name hq, List.filter_cons, hrest, isOptional_own hget]
  cases p.optional <;> rfl

theorem isMandatory_below : v.isMandatory (p.name :: q) = (!p.optional && sub.isMandatory q) := by
  rw [isMandatory, isMandatory, optionals_below hget hq]
  cases p.optional <;> simp

/-- **The position of a path below an entry** is its position in the view of the entry, in the group of the
entry if this is optional. -/
theorem positionAt_below : v.positionAt root base (p.name :: q) =
    under (if p.optional then [v.tripleAt root base [p.name]] else [])
      (sub.positionAt root (base ++ [p.name]) q) := by
  have hrest : ((sub.optionals q).map (p.name :: ·)).map (v.tripleAt root base) =
      (sub.optionals q).map (sub.tripleAt root (base ++ [p.name])) := by
    rw [List.map_map]
    refine List.map_congr_left fun r hr => ?_
    have hmem := List.mem_of_mem_filter hr
    exact tripleAt_below hget ((Path.mem_ancestors_append hq).1 hmem).1
  rw [positionAt, optionals_below hget hq, tripleAt_below hget hq, List.map_append, hrest]
  cases p.optional <;> rfl

end Below

end View

namespace Pattern

variable {v sub rest : View} {p : Property} {root subject : String} {base q : Path}

/-- The pattern of a view that stands at `base`, around the variable of `base`. -/
def patternAt (root : String) (base : Path) (v : View) : List Element :=
  (compileUnder .full root (Path.toVariable root base) base v).elements .full
    (Path.toVariable root base)

/-- The triple of an entry of a view that stands at `base`. -/
def entryTriple (root : String) (base : Path) (p : Property) : Triple :=
  ⟨Path.toVariable root base, p.iri, Path.toVariable root (base ++ [p.name])⟩

/-! ### Entry by entry -/

theorem split_elements (parts : Parts) (subject : String) :
    (parts.elements .full subject).flatMap split =
      parts.pairs.map (fun pair => .triple subject pair.1 pair.2) ++ parts.nested.flatMap split ++
        parts.optional.flatMap split := by
  have hblock : ((if parts.pairs.isEmpty then [] else [.block subject parts.pairs]) :
      List Element).flatMap split = parts.pairs.map fun pair => .triple subject pair.1 pair.2 := by
    cases parts.pairs with
    | nil => rfl
    | cons pair more => simp [split]
  rw [Parts.elements, if_pos rfl, List.flatMap_append, List.flatMap_append, hblock]

/-- **A view that begins with an entry without a view**: its triple, or a group of it, and the
pattern of the others. -/
theorem perm_patternAt_leaf (root : String) (base : Path) (p : Property) (rest : View) :
    ((patternAt root base (.leaf p rest)).flatMap split).Perm
      ((grouped p.optional [ofTriple (entryTriple root base p)] ++
        patternAt root base rest).flatMap split) := by
  rw [List.flatMap_append, split_grouped, patternAt, patternAt, compileUnder, split_elements,
    split_elements]
  cases p.optional with
  | false => exact .refl _
  | true => exact List.perm_middle

/-- **A view that begins with an entry with a view**: its triple and the pattern of its view, or a
group of them, and the pattern of the others. -/
theorem perm_patternAt_nested (root : String) (base : Path) (p : Property) (sub rest : View) :
    ((patternAt root base (.nested p sub rest)).flatMap split).Perm
      ((grouped p.optional (ofTriple (entryTriple root base p) ::
        patternAt root (base ++ [p.name]) sub) ++ patternAt root base rest).flatMap split) := by
  rw [List.flatMap_append, patternAt, compileUnder, split_elements]
  cases p.optional with
  | false =>
    have hrest := split_elements (compileUnder .full root (Path.toVariable root base) base rest)
      (Path.toVariable root base)
    rw [← patternAt] at hrest
    rw [hrest, if_neg (by simp), List.flatMap_append, List.append_assoc, List.append_assoc,
      List.append_assoc]
    exact List.perm_append_comm_assoc _ _ _
  | true =>
    rw [if_pos rfl, patternAt, patternAt, split_elements]
    exact List.perm_middle

/-! ### Triples and groups -/

theorem placedAll_entry (optional : Bool) (t : Triple) (l : List Element) :
    placedAll [] (grouped optional (ofTriple t :: l)) =
      under (if optional then [some t] else []) ([], some t) ::
        (placedAll [] l).map (under (if optional then [some t] else [])) := by
  rw [placedAll_grouped, placedAll, placed_ofTriple]
  rfl

/-- **Each path of a view has one triple in the pattern**, in the groups of the optional entries along
it, and there is nothing else. -/
theorem perm_placedAll_patternAt (root : String) : ∀ {v : View} (base : Path), v.WellFormed →
    (placedAll [] (patternAt root base v)).Perm (v.paths.map (v.positionAt root base))
  | .empty, base, _ => .refl _
  | .leaf p rest, base, hv => by
    have hget := View.get?_leaf_self p rest
    have hothers : rest.paths.map ((View.leaf p rest).positionAt root base) =
        rest.paths.map (rest.positionAt root base) :=
      View.map_paths_congr hv.2.1 fun name q hne => View.positionAt_congr
        (by simp [hne]) q
    have ih := perm_placedAll_patternAt root base hv.2.2
    refine (perm_placedAll (perm_patternAt_leaf root base p rest)).trans ?_
    rw [placedAll_append, placedAll_entry, View.paths_leaf, List.map_cons, hothers,
      View.positionAt_own hget, View.tripleAt_own hget]
    exact ih.cons _
  | .nested p sub rest, base, hv => by
    have hget := View.get?_nested_self p sub rest
    have hothers : rest.paths.map ((View.nested p sub rest).positionAt root base) =
        rest.paths.map (rest.positionAt root base) :=
      View.map_paths_congr hv.2.1 fun name q hne => View.positionAt_congr
        (by simp [hne]) q
    have hbelow : (sub.paths.map (p.name :: ·)).map ((View.nested p sub rest).positionAt root base) =
        (sub.paths.map (sub.positionAt root (base ++ [p.name]))).map
          (under (if p.optional then [some (entryTriple root base p)] else [])) := by
      rw [List.map_map, List.map_map]
      refine List.map_congr_left fun q hq => ?_
      rw [Function.comp_apply, View.positionAt_below hget (View.ne_nil_of_mem_paths hq),
        View.tripleAt_own hget]
      rfl
    have ih := perm_placedAll_patternAt root base hv.2.2.2
    have ihsub := perm_placedAll_patternAt root (base ++ [p.name]) hv.2.2.1
    refine (perm_placedAll (perm_patternAt_nested root base p sub rest)).trans ?_
    rw [placedAll_append, placedAll_entry, View.paths_nested, List.map_cons, List.map_append, hothers,
      hbelow, View.positionAt_own hget, View.tripleAt_own hget]
    exact ((ihsub.map _).append ih).cons _

theorem map_groupsAll_entry (optional : Bool) (t : Triple) (l : List Element) :
    (groupsAll (grouped optional (ofTriple t :: l))).map first? =
      (if optional then [some t] else []) ++ (groupsAll l).map first? := by
  rw [groupsAll_grouped, List.map_append]
  cases optional <;> rfl

theorem map_filter_own {o : Option View} (hget : v.get? p.name = some ⟨p, o⟩) (paths : List Path) :
    (([p.name] :: paths).filter v.isOptional).map (v.tripleAt root base) =
      (if p.optional then [some (entryTriple root base p)] else []) ++
        (paths.filter v.isOptional).map (v.tripleAt root base) := by
  rw [List.filter_cons, View.isOptional_own hget]
  cases p.optional with
  | false => rfl
  | true =>
    rw [if_pos rfl, List.map_cons, View.tripleAt_own hget]
    rfl

/-- **Each optional entry has one group**, which begins with its triple, and there is no other. -/
theorem perm_groupsAll_patternAt (root : String) : ∀ {v : View} (base : Path), v.WellFormed →
    ((groupsAll (patternAt root base v)).map first?).Perm
      ((v.paths.filter v.isOptional).map (v.tripleAt root base))
  | .empty, base, _ => .refl _
  | .leaf p rest, base, hv => by
    have hget := View.get?_leaf_self p rest
    have hothers : (rest.paths.filter (View.leaf p rest).isOptional).map
        ((View.leaf p rest).tripleAt root base) =
        (rest.paths.filter rest.isOptional).map (rest.tripleAt root base) :=
      View.map_filter_paths_congr hv.2.1 fun name hne => by simp [hne]
    have ih := perm_groupsAll_patternAt root base hv.2.2
    refine ((perm_groupsAll (perm_patternAt_leaf root base p rest)).map first?).trans ?_
    rw [groupsAll_append, List.map_append, map_groupsAll_entry, View.paths_leaf,
      map_filter_own hget, hothers, List.append_assoc]
    exact ih.append_left _
  | .nested p sub rest, base, hv => by
    have hget := View.get?_nested_self p sub rest
    have hothers : (rest.paths.filter (View.nested p sub rest).isOptional).map
        ((View.nested p sub rest).tripleAt root base) =
        (rest.paths.filter rest.isOptional).map (rest.tripleAt root base) :=
      View.map_filter_paths_congr hv.2.1 fun name hne => by simp [hne]
    have hbelow : ((sub.paths.map (p.name :: ·)).filter (View.nested p sub rest).isOptional).map
        ((View.nested p sub rest).tripleAt root base) =
        (sub.paths.filter sub.isOptional).map (sub.tripleAt root (base ++ [p.name])) := by
      have hfilter : sub.paths.filter ((View.nested p sub rest).isOptional ∘ (p.name :: ·)) =
          sub.paths.filter sub.isOptional :=
        List.filter_congr fun q hq => View.isOptional_below hget (View.ne_nil_of_mem_paths hq)
      rw [List.filter_map, hfilter, List.map_map]
      refine List.map_congr_left fun q hq => ?_
      exact View.tripleAt_below hget (View.ne_nil_of_mem_paths (List.mem_of_mem_filter hq))
    have ih := perm_groupsAll_patternAt root base hv.2.2.2
    have ihsub := perm_groupsAll_patternAt root (base ++ [p.name]) hv.2.2.1
    refine ((perm_groupsAll (perm_patternAt_nested root base p sub rest)).map first?).trans ?_
    rw [groupsAll_append, List.map_append, map_groupsAll_entry, View.paths_nested,
      map_filter_own hget, List.filter_append, List.map_append, hothers, hbelow, List.append_assoc]
    exact (ihsub.append ih).append_left _

/-! ### Known subjects -/

/-- What is known of the groups of one level: their subjects, from the one around which they stand. -/
structure PartsBound (seen : List String) (parts : Parts) : Prop where
  nested : BoundAll seen parts.nested
  optional : BoundAll seen parts.optional

theorem PartsBound.elements {seen : List String} {parts : Parts} (h : PartsBound seen parts)
    (hsubject : subject ∈ seen) : BoundAll seen (parts.elements .full subject) := by
  have hblock : BoundAll seen (if parts.pairs.isEmpty then [] else [.block subject parts.pairs]) := by
    split <;> simp [BoundAll, Bound, hsubject]
  exact (hblock.append h.nested).append h.optional

theorem boundAll_entry {seen : List String} {t : Triple} {l : List Element}
    (hsubject : t.subject ∈ seen) (hl : BoundAll (seen ++ [t.object]) l) :
    BoundAll seen (ofTriple t :: l) := by
  rw [BoundAll]
  exact ⟨hsubject, hl⟩

theorem boundAll_optional {seen : List String} {l : List Element} (h : BoundAll seen l) :
    BoundAll seen [.optional l] := by
  rw [BoundAll, Bound]
  exact ⟨h, trivial⟩

/-- **Every subject of a pattern is known where it stands**, if the one around which it stands is. -/
theorem partsBound_compileUnder (root : String) : ∀ (v : View) (base : Path) (subject : String)
    (seen : List String), subject ∈ seen →
      PartsBound seen (compileUnder .full root subject base v)
  | .empty, _, _, _, _ => ⟨trivial, trivial⟩
  | .leaf p rest, base, subject, seen, h => by
    obtain ⟨hnested, hoptional⟩ := partsBound_compileUnder root rest base subject seen h
    let t : Triple := ⟨subject, p.iri, Path.toVariable root (base ++ [p.name])⟩
    have hentry : BoundAll seen [ofTriple t] := boundAll_entry h trivial
    rw [compileUnder]
    split
    · exact ⟨hnested, (boundAll_optional hentry).append hoptional⟩
    · exact ⟨hnested, hoptional⟩
  | .nested p sub rest, base, subject, seen, h => by
    obtain ⟨hnested, hoptional⟩ := partsBound_compileUnder root rest base subject seen h
    let t : Triple := ⟨subject, p.iri, Path.toVariable root (base ++ [p.name])⟩
    have hobject : t.object ∈ seen ++ [t.object] := by simp
    have hsub := partsBound_compileUnder root sub (base ++ [p.name]) t.object _ hobject
    have hentry := boundAll_entry (t := t) h (hsub.elements hobject)
    rw [compileUnder]
    split
    · exact ⟨hnested, (boundAll_optional hentry).append hoptional⟩
    · exact ⟨hentry.append hnested, hoptional⟩

/-! ### The part that every entity must match -/

theorem elements_mandatory (parts : Parts) (subject : String) :
    parts.elements .mandatory subject =
      (if parts.pairs.isEmpty then [] else [.block subject parts.pairs]) ++ parts.nested := by
  simp [Parts.elements]

theorem vars_mandatory (parts : Parts) :
    parts.vars .mandatory = parts.pairs.map (·.2) ++ parts.nestedVariables := by
  simp [Parts.vars]

/-- **The mandatory part of one level** against the whole of it. -/
structure IsMandatoryPart (part whole : Parts) : Prop where
  pairs : part.pairs = whole.pairs
  nested : part.nested = whole.nested.filter (!·.isOptional)
  optional : ∀ e ∈ whole.optional, e.isOptional = true

theorem IsMandatoryPart.elements {part whole : Parts} (h : IsMandatoryPart part whole)
    (subject : String) :
    part.elements .mandatory subject = (whole.elements .full subject).filter (!·.isOptional) := by
  have hblock : ∀ pairs : List (String × String),
      ((if pairs.isEmpty then [] else [.block subject pairs]) : List Element).filter
        (!·.isOptional) = if pairs.isEmpty then [] else [.block subject pairs] := by
    intro pairs
    cases pairs <;> rfl
  have hoptional : whole.optional.filter (!·.isOptional) = [] := by
    refine List.filter_eq_nil_iff.2 fun e he => ?_
    simp [h.optional e he]
  rw [elements_mandatory, Parts.elements, if_pos rfl, List.filter_append, List.filter_append, hblock,
    hoptional, List.append_nil, h.pairs, h.nested]

/-- **The mandatory pattern is the whole without its optional groups**, at every level. -/
theorem isMandatoryPart_compileUnder (root : String) : ∀ (v : View) (base : Path) (subject : String),
    IsMandatoryPart (compileUnder .mandatory root subject base v)
      (compileUnder .full root subject base v)
  | .empty, _, _ => ⟨rfl, rfl, by simp [compileUnder]⟩
  | .leaf p rest, base, subject => by
    obtain ⟨hpairs, hnested, hoptional⟩ := isMandatoryPart_compileUnder root rest base subject
    rw [compileUnder, compileUnder]
    split
    · exact ⟨hpairs, hnested, List.forall_mem_cons.2 ⟨rfl, hoptional⟩⟩
    · exact ⟨congrArg (List.cons _) hpairs, hnested, hoptional⟩
  | .nested p sub rest, base, subject => by
    obtain ⟨hpairs, hnested, hoptional⟩ := isMandatoryPart_compileUnder root rest base subject
    let object := Path.toVariable root (base ++ [p.name])
    have hsub := (isMandatoryPart_compileUnder root sub (base ++ [p.name]) object).elements object
    rw [compileUnder, compileUnder]
    split
    · exact ⟨hpairs, hnested, List.forall_mem_cons.2 ⟨rfl, hoptional⟩⟩
    · refine ⟨hpairs, ?_, hoptional⟩
      dsimp only
      rw [List.filter_append, ← hnested]
      exact congrArg (fun l => Element.triple subject p.iri object :: l ++ _) hsub

/-- **The variables of the mandatory pattern** are those of the paths without an optional entry. -/
theorem perm_vars_mandatory (root : String) : ∀ {v : View} (base : Path) (subject : String),
    v.WellFormed → ((compileUnder .mandatory root subject base v).vars .mandatory).Perm
      ((v.paths.filter v.isMandatory).map fun q => Path.toVariable root (base ++ q))
  | .empty, _, _, _ => .refl _
  | .leaf p rest, base, subject, hv => by
    have hget := View.get?_leaf_self p rest
    have hothers : rest.paths.filter (View.leaf p rest).isMandatory =
        rest.paths.filter rest.isMandatory :=
      View.filter_paths_congr hv.2.1 fun name q hne => congrArg List.isEmpty
        (View.optionals_congr (by simp [hne]) q)
    have ih := perm_vars_mandatory root base subject hv.2.2
    rw [vars_mandatory] at ih
    rw [View.paths_leaf, List.filter_cons, View.isMandatory_own hget, hothers, compileUnder,
      vars_mandatory]
    cases p.optional with
    | false => exact ih.cons _
    | true => exact ih
  | .nested p sub rest, base, subject, hv => by
    have hget := View.get?_nested_self p sub rest
    have hothers : rest.paths.filter (View.nested p sub rest).isMandatory =
        rest.paths.filter rest.isMandatory :=
      View.filter_paths_congr hv.2.1 fun name q hne => congrArg List.isEmpty
        (View.optionals_congr (by simp [hne]) q)
    have hbelow : sub.paths.filter ((View.nested p sub rest).isMandatory ∘ (p.name :: ·)) =
        sub.paths.filter fun q => !p.optional && sub.isMandatory q :=
      List.filter_congr fun q hq => View.isMandatory_below hget (View.ne_nil_of_mem_paths hq)
    have ih := perm_vars_mandatory root base subject hv.2.2.2
    have ihsub := perm_vars_mandatory root (base ++ [p.name])
      (Path.toVariable root (base ++ [p.name])) hv.2.2.1
    rw [vars_mandatory] at ih
    rw [View.paths_nested, List.filter_cons, View.isMandatory_own hget, List.filter_append,
      List.filter_map, hbelow, hothers, compileUnder, vars_mandatory]
    cases p.optional with
    | true =>
      have hnone : sub.paths.filter (fun q => !true && sub.isMandatory q) = [] := by simp
      rw [hnone]
      exact ih
    | false =>
      have hsub : ((sub.paths.filter fun q => true && sub.isMandatory q).map (p.name :: ·)).map
          (fun q => Path.toVariable root (base ++ q)) =
          (sub.paths.filter sub.isMandatory).map
            fun q => Path.toVariable root (base ++ [p.name] ++ q) := by
        simp [Function.comp_def]
      refine (List.perm_append_comm_assoc _ _ _).trans ?_
      rw [Bool.not_false, if_pos rfl, List.map_cons, List.map_append, hsub]
      exact (ihsub.append ih).cons _

/-! ### Triples along a path -/

/-- **The triples along a path are those of its beginnings**, in order. -/
theorem chainFrom?_eq {elements : List Element}
    (h : chainFrom? root (Path.toVariable root base) base v q = some elements) :
    elements.map some =
      (Path.ancestors q ++ [q]).map fun r => (v.tripleAt root base r).map ofTriple := by
  induction q generalizing v base elements with
  | nil => cases h
  | cons name q ih =>
    rcases eq_or_ne q [] with rfl | hq
    · obtain ⟨⟨p, o⟩, hget, helements⟩ := Option.bind_eq_some_iff.1 h
      obtain rfl : p.name = name := View.name_of_get? hget
      have hbegin : Path.ancestors [p.name] ++ [[p.name]] = [[p.name]] := rfl
      rw [hbegin, List.map_singleton, View.tripleAt_own hget, ← Option.some.inj helements]
      rfl
    · rw [chainFrom?_cons _ base name hq] at h
      obtain ⟨⟨p, o⟩, hget, h⟩ := Option.bind_eq_some_iff.1 h
      obtain ⟨sub, rfl, h⟩ := Option.bind_eq_some_iff.1 h
      obtain ⟨more, hmore, rfl⟩ := Option.map_eq_some_iff.1 h
      obtain rfl : p.name = name := View.name_of_get? hget
      have hrest : (Path.ancestors q ++ [q]).map
          ((fun r => (v.tripleAt root base r).map ofTriple) ∘ (p.name :: ·)) =
          (Path.ancestors q ++ [q]).map
            fun r => (sub.tripleAt root (base ++ [p.name]) r).map ofTriple := by
        refine List.map_congr_left fun r hr => ?_
        have hne := ((Path.mem_ancestors_append hq).1 hr).1
        rw [Function.comp_apply, View.tripleAt_below hget hne]
      rw [Path.beginnings_cons p.name hq, List.map_cons, List.map_cons, List.map_map, hrest,
        View.tripleAt_own hget, ih hmore]
      rfl

/-- **The pattern of a view is the view**, whatever the variable of the root. Each path has one triple
in it, from the variable of its parent to its own, and there is no other; around it stand the groups
that begin with the triples of the optional entries along the path, and each optional entry has one
group. Every subject is the root or the object of an earlier triple of the same group or of one
around it. The mandatory pattern is the whole one without its groups, with the variables of the paths
without an optional entry. The chain of a path has the triples of its beginnings, and there is none
for what is no path. -/
theorem pattern_is_view (root : String) {v : View} (hv : v.WellFormed) :
    (placedAll [] (compile .full root v).elements).Perm
        (v.paths.map fun p => ((v.optionals p).map (v.triple? root), v.triple? root p)) ∧
      (∀ p ∈ v.paths, (v.triple? root p).isSome) ∧ (v.paths.map (v.triple? root)).Nodup ∧
      ((groupsAll (compile .full root v).elements).map first?).Perm
        ((v.paths.filter v.isOptional).map (v.triple? root)) ∧
      BoundAll [root] (compile .full root v).elements ∧
      (compile .mandatory root v).elements =
        (compile .full root v).elements.filter (!·.isOptional) ∧
      (compile .mandatory root v).vars.Perm
        (root :: (v.paths.filter v.isMandatory).map (Path.toVariable root)) ∧
      ∀ p, (p ∈ v.paths → ∃ elements, chain root v p = .ok elements ∧
          elements.map some =
            (Path.ancestors p ++ [p]).map (fun q => (v.triple? root q).map ofTriple) ∧
          ∀ q ∈ Path.ancestors p ++ [p], q ∈ v.paths) ∧
        (p ∉ v.paths → chain root v p = .error (.pathNotFound p.toDotted)) := by
  have hsome : ∀ p ∈ v.paths, (v.triple? root p).isSome := by
    intro p hp
    rw [View.triple?, Option.isSome_map]
    exact (View.mem_paths_iff hv).1 hp
  refine ⟨perm_placedAll_patternAt root [] hv, hsome, ?_, perm_groupsAll_patternAt root [] hv,
    (partsBound_compileUnder root v [] root [root] (by simp)).elements (by simp),
    (isMandatoryPart_compileUnder root v [] root).elements root,
    (perm_vars_mandatory root [] root hv).cons root, fun p => ⟨fun hp => ?_, fun hp => ?_⟩⟩
  · -- a triple has the path in the variable of its object
    refine (View.nodup_paths hv).map_on fun p hp q hq h => ?_
    obtain ⟨e, he⟩ := Option.isSome_iff_exists.1 ((View.mem_paths_iff hv).1 hp)
    obtain ⟨d, hd⟩ := Option.isSome_iff_exists.1 ((View.mem_paths_iff hv).1 hq)
    rw [View.triple?, View.triple?, he, hd] at h
    have hobject : Path.toVariable root p = Path.toVariable root q :=
      congrArg Triple.object (Option.some.inj h)
    rw [Path.toVariable_of_ne_nil (View.ne_nil_of_mem_paths hp),
      Path.toVariable_of_ne_nil (View.ne_nil_of_mem_paths hq)] at hobject
    exact Naming.encode_injective (View.legal_of_mem_paths hv hp) (View.legal_of_mem_paths hv hq)
      hobject
  · have hfind := (View.mem_paths_iff hv).1 hp
    have hne := View.ne_nil_of_mem_paths hp
    rw [← isSome_chainFrom? root root [] v p] at hfind
    obtain ⟨elements, helements⟩ := Option.isSome_iff_exists.1 hfind
    have hroot : chainFrom? root (Path.toVariable root []) [] v p = some elements := helements
    refine ⟨elements, by rw [chain, helements], chainFrom?_eq hroot, fun q hq => ?_⟩
    obtain ⟨hqne, hbegin⟩ := (Path.mem_ancestors_append hne).1 hq
    exact (View.mem_paths_iff hv).2
      (View.isSome_find?_of_beginning hqne hbegin ((View.mem_paths_iff hv).1 hp))
  · have hfind : (chainFrom? root root [] v p).isSome = false := by
      rw [isSome_chainFrom?, ← Bool.not_eq_true, ← View.mem_paths_iff hv]
      exact hp
    rw [Option.isSome_eq_false_iff, Option.isNone_iff_eq_none] at hfind
    rw [chain, hfind]

/-- A person with a name, perhaps an age, and perhaps a place with a street of its own. -/
def personView : View :=
  .leaf { name := "name", iri := "http://e/name" } <|
  .leaf { name := "age", iri := "http://e/age", optional := true } <|
  .nested { name := "home", iri := "http://e/home", optional := true }
    (.nested { name := "street", iri := "http://e/street" }
      (.leaf { name := "no", iri := "http://e/no", optional := true } .empty) .empty) .empty

/-- The number of the street stands in two groups, which begin with the home and with itself. -/
theorem pattern_is_view_of_person : personView.WellFormed ∧
    ([some ⟨"id", "http://e/home", "home"⟩, some ⟨"home_street", "http://e/no", "home_street_no"⟩],
        some ⟨"home_street", "http://e/no", "home_street_no"⟩) ∈
      placedAll [] (compile .full "id" personView).elements ∧
    (compile .mandatory "id" personView).vars.Perm ["id", "name"] ∧
    (∃ e, chain "id" personView ["home", "name"] = .error e) := by
  have hv : personView.WellFormed := by decide
  obtain ⟨hplaced, -, -, -, -, -, hvars, hchain⟩ := pattern_is_view "id" hv
  refine ⟨hv, hplaced.mem_iff.2 (List.mem_map.2 ⟨["home", "street", "no"], ?_, ?_⟩), hvars, ?_⟩
  · decide
  · decide
  · exact ⟨_, (hchain ["home", "name"]).2 (by decide)⟩

end Pattern

end SparqlViews
