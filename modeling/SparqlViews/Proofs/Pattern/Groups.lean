import Mathlib.Data.List.Perm.Basic
import SparqlViews.Pattern.Basic

/-! # Triples and the groups around them

A pattern is read through its optional groups as a list of triples, each with the groups that it
stands in.

* `Element.placedAll`: the triples with the groups around them, the outermost first. A group is named
  by the triple that it begins with. A text in position of triples stands for none.
* `Element.groupsAll`: the groups themselves.
* `Element.split`: a block as its triples one by one. The triples and the groups of a pattern do not
  depend on the order of what it is split into, but for their own order (`perm_placedAll`,
  `perm_groupsAll`).
* `Element.BoundAll`: every subject is known where it stands, from the groups around it and from what
  precedes it in its own group. -/

namespace SparqlViews

/-- **A triple of a pattern**: two variables and the property between them. -/
structure Triple where
  subject : String
  property : String
  object : String
  deriving DecidableEq, Repr

namespace Element

/-- A triple as an element of its own. -/
def ofTriple (t : Triple) : Element := .triple t.subject t.property t.object

def isOptional : Element → Bool
  | .optional _ => true
  | _ => false

/-- The triple that a group begins with. -/
def first? : List Element → Option Triple
  | .block subject ((property, object) :: _) :: _ => some ⟨subject, property, object⟩
  | _ => none

/-- A triple with the beginnings of the groups around it. -/
abbrev Position := List (Option Triple) × Option Triple

/-- A position inside of further groups. -/
def under (around : List (Option Triple)) (position : Position) : Position := (around ++ position.1, position.2)

mutual

/-- The triples of an element inside of some groups. -/
def placed (around : List (Option Triple)) : Element → List Position
  | .block subject pairs => pairs.map fun pair => (around, some ⟨subject, pair.1, pair.2⟩)
  | .optional elements => placedAll (around ++ [first? elements]) elements
  | .raw _ => [(around, none)]

/-- **The triples of a group, each with the groups around it.** -/
def placedAll (around : List (Option Triple)) : List Element → List Position
  | [] => []
  | e :: rest => placed around e ++ placedAll around rest

end

mutual

/-- The groups of an element, at every depth. -/
def groups : Element → List (List Element)
  | .block _ _ => []
  | .optional elements => elements :: groupsAll elements
  | .raw _ => []

/-- **The groups inside of a group**, at every depth. -/
def groupsAll : List Element → List (List Element)
  | [] => []
  | e :: rest => groups e ++ groupsAll rest

end

/-- The variables that an element gives values to in its own group. -/
def objects : Element → List String
  | .block _ pairs => pairs.map (·.2)
  | _ => []

mutual

/-- Every subject of an element is known. -/
def Bound (seen : List String) : Element → Prop
  | .block subject _ => subject ∈ seen
  | .optional elements => BoundAll seen elements
  | .raw _ => True

/-- **Every subject of a group is known where it stands**: before the group, or as the object of an
earlier triple of the group itself. What stands in an optional group is not known outside of it. -/
def BoundAll (seen : List String) : List Element → Prop
  | [] => True
  | e :: rest => Bound seen e ∧ BoundAll (seen ++ e.objects) rest

end

variable {around : List (Option Triple)} {seen : List String} {l m : List Element} {t : Triple}

/-! ### Positions -/

theorem placedAll_eq (around : List (Option Triple)) (l : List Element) :
    placedAll around l = l.flatMap (placed around) := by
  induction l with
  | nil => rfl
  | cons e l ih => rw [placedAll, ih, List.flatMap_cons]

@[simp] theorem placedAll_append (around : List (Option Triple)) (l m : List Element) :
    placedAll around (l ++ m) = placedAll around l ++ placedAll around m := by
  simp only [placedAll_eq, List.flatMap_append]

@[simp] theorem placed_ofTriple (around : List (Option Triple)) (t : Triple) :
    placed around (ofTriple t) = [(around, some t)] := by
  simp [ofTriple, triple, placed]

@[simp] theorem first?_ofTriple (t : Triple) (l : List Element) : first? (ofTriple t :: l) = some t := rfl

theorem under_under (around more : List (Option Triple)) (position : Position) :
    under around (under more position) = under (around ++ more) position := by
  simp [under]

mutual

theorem placed_eq_under (around : List (Option Triple)) :
    ∀ e : Element, placed around e = (placed [] e).map (under around)
  | .block subject pairs => by simp [placed, under, Function.comp_def]
  | .raw text => by simp [placed, under]
  | .optional elements => by
    have hinner := placedAll_eq_under ([] ++ [first? elements]) elements
    have houter := placedAll_eq_under (around ++ [first? elements]) elements
    rw [placed, placed, hinner, houter, List.map_map]
    refine List.map_congr_left fun position _ => ?_
    rw [Function.comp_apply, under_under, List.nil_append]

theorem placedAll_eq_under (around : List (Option Triple)) :
    ∀ l : List Element, placedAll around l = (placedAll [] l).map (under around)
  | [] => rfl
  | e :: rest => by
    rw [placedAll, placedAll, placed_eq_under around e, placedAll_eq_under around rest,
      List.map_append]

end

theorem groupsAll_eq (l : List Element) : groupsAll l = l.flatMap groups := by
  induction l with
  | nil => rfl
  | cons e l ih => rw [groupsAll, ih, List.flatMap_cons]

@[simp] theorem groupsAll_append (l m : List Element) : groupsAll (l ++ m) = groupsAll l ++ groupsAll m := by
  simp only [groupsAll_eq, List.flatMap_append]

/-! ### Elements in a group of their own -/

/-- Elements as a group, or as they are. -/
def grouped (optional : Bool) (l : List Element) : List Element :=
  if optional then [.optional l] else l

theorem placedAll_grouped (optional : Bool) (t : Triple) (l : List Element) :
    placedAll [] (grouped optional (ofTriple t :: l)) =
      (placedAll [] (ofTriple t :: l)).map (under (if optional then [some t] else [])) := by
  cases optional with
  | false =>
    have hsame : under [] = id := rfl
    simp [grouped, hsame]
  | true =>
    have hgroup : placedAll [] [.optional (ofTriple t :: l)] =
        placedAll [some t] (ofTriple t :: l) := by
      simp only [placedAll, placed, first?_ofTriple, List.nil_append, List.append_nil]
    rw [grouped, if_pos rfl, if_pos rfl, hgroup, placedAll_eq_under]

theorem groupsAll_grouped (optional : Bool) (t : Triple) (l : List Element) :
    groupsAll (grouped optional (ofTriple t :: l)) =
      (if optional then [ofTriple t :: l] else []) ++ groupsAll l := by
  have htriple : groups (ofTriple t) = [] := rfl
  cases optional with
  | false => simp [grouped, groupsAll, htriple]
  | true => simp [grouped, groupsAll, groups, htriple]

/-! ### Blocks triple by triple -/

/-- A block as its triples. -/
def split : Element → List Element
  | .block subject pairs => pairs.map fun pair => .triple subject pair.1 pair.2
  | e => [e]

@[simp] theorem split_ofTriple (t : Triple) : split (ofTriple t) = [ofTriple t] := rfl

theorem split_grouped (optional : Bool) (t : Triple) (l : List Element) :
    (grouped optional (ofTriple t :: l)).flatMap split =
      grouped optional (ofTriple t :: if optional then l else l.flatMap split) := by
  cases optional with
  | false => simp [grouped]
  | true => simp [grouped, split]

theorem placedAll_split (around : List (Option Triple)) (l : List Element) :
    placedAll around (l.flatMap split) = placedAll around l := by
  induction l with
  | nil => rfl
  | cons e l ih =>
    have hsplit : placedAll around e.split = placed around e := by
      cases e with
      | block subject pairs =>
        rw [placedAll_eq, split, List.flatMap_map, placed, List.map_eq_flatMap]
        rfl
      | optional elements => simp [split, placedAll]
      | raw text => simp [split, placedAll]
    rw [List.flatMap_cons, placedAll_append, hsplit, ih, placedAll]

theorem groupsAll_split (l : List Element) : groupsAll (l.flatMap split) = groupsAll l := by
  induction l with
  | nil => rfl
  | cons e l ih =>
    have hsplit : groupsAll e.split = groups e := by
      cases e with
      | block subject pairs =>
        rw [groupsAll_eq, split, List.flatMap_map]
        exact List.flatMap_eq_nil_iff.2 fun pair _ => rfl
      | optional elements => simp [split, groupsAll]
      | raw text => simp [split, groupsAll]
    rw [List.flatMap_cons, groupsAll_append, hsplit, ih, groupsAll]

/-- **Patterns of the same triples and groups in another order** have the same positions. -/
theorem perm_placedAll (h : (l.flatMap split).Perm (m.flatMap split)) :
    (placedAll around l).Perm (placedAll around m) := by
  rw [← placedAll_split around l, ← placedAll_split around m, placedAll_eq, placedAll_eq]
  exact h.flatMap_right _

theorem perm_groupsAll (h : (l.flatMap split).Perm (m.flatMap split)) :
    (groupsAll l).Perm (groupsAll m) := by
  rw [← groupsAll_split l, ← groupsAll_split m, groupsAll_eq, groupsAll_eq]
  exact h.flatMap_right _

/-! ### Known subjects -/

@[simp] theorem boundAll_append :
    ∀ (seen : List String) (l m : List Element), BoundAll seen (l ++ m) ↔
      BoundAll seen l ∧ BoundAll (seen ++ l.flatMap objects) m
  | seen, [], m => by simp [BoundAll]
  | seen, e :: l, m => by
    rw [List.cons_append, BoundAll, BoundAll, boundAll_append _ l m, List.flatMap_cons, and_assoc,
      List.append_assoc]

mutual

theorem Bound.mono : ∀ {seen seen' : List String} {e : Element}, seen ⊆ seen' →
    Bound seen e → Bound seen' e
  | _, _, .block _ _, h, he => by
    rw [Bound] at he ⊢
    exact h he
  | _, _, .optional _, h, he => by
    rw [Bound] at he ⊢
    exact BoundAll.mono h he
  | _, _, .raw _, _, _ => by rw [Bound]; exact trivial

theorem BoundAll.mono : ∀ {seen seen' : List String} {l : List Element}, seen ⊆ seen' →
    BoundAll seen l → BoundAll seen' l
  | _, _, [], _, _ => by rw [BoundAll]; exact trivial
  | _, _, _ :: _, h, hl => by
    rw [BoundAll] at hl ⊢
    refine ⟨Bound.mono h hl.1, BoundAll.mono (List.append_subset.2 ⟨?_, ?_⟩) hl.2⟩
    · exact List.Subset.trans h (List.subset_append_left _ _)
    · exact List.subset_append_right _ _

end

theorem BoundAll.append (hl : BoundAll seen l) (hm : BoundAll seen m) : BoundAll seen (l ++ m) :=
  (boundAll_append seen l m).2 ⟨hl, BoundAll.mono (List.subset_append_left _ _) hm⟩

end Element

end SparqlViews
