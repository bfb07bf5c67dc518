import SparqlViews.Proofs.View.Levels
import SparqlViews.View.Lookup

/-! # What a search hands out

A search through a view hands out the entries that pass its test level by level (`Search.all_start`), and
its first answer is the first of them (`Search.next?_start`).

* `Search.inOrder`: the entries of views that stand on one level and on the next, level by level.
* `Search.Yields`: what a search still has to hand out. The views ahead of it are the rest of one level and
  the views that have been met on it, which every step keeps (`Search.Yields.next?`).
-/

namespace SparqlViews.Search

open View (zipLevels zipLevels_assoc flatten_zipLevels_cons)

variable {test : Entry → Bool} {s : Search} {v : View} {base : Path} {l : List (Path × Entry)}

/-! ### The levels of a queue -/

/-- The levels below several views. -/
def levelsOf (ahead : List (Path × View)) : List (List (Path × Entry)) :=
  ahead.foldr (fun below levels => zipLevels (below.2.levelsUnder below.1) levels) []

@[simp] theorem levelsOf_cons (base : Path) (v : View) (ahead : List (Path × View)) :
    levelsOf ((base, v) :: ahead) = zipLevels (v.levelsUnder base) (levelsOf ahead) := rfl

@[simp] theorem levelsOf_append (ahead more : List (Path × View)) :
    levelsOf (ahead ++ more) = zipLevels (levelsOf ahead) (levelsOf more) := by
  induction ahead with
  | nil => simp [levelsOf]
  | cons below ahead ih =>
    rw [List.cons_append, levelsOf_cons, levelsOf_cons, ih, zipLevels_assoc]

/-- **A view with entries has them on its first level**, and the levels of their views below. -/
theorem levelsUnder_eq (base : Path) : ∀ {v : View}, v ≠ .empty →
    v.levelsUnder base = v.entriesAt base :: levelsOf (v.viewsAt base)
  | .leaf p rest, _ => by
    rcases eq_or_ne rest .empty with rfl | hrest
    · rfl
    · rw [View.levelsUnder, levelsUnder_eq base hrest, zipLevels, View.zipLevels_nil_left]
      rfl
  | .nested p sub rest, _ => by
    rcases eq_or_ne rest .empty with rfl | hrest
    · rw [View.levelsUnder, View.levelsUnder, View.zipLevels_nil_right]
      exact congrArg (_ :: ·) (View.zipLevels_nil_right _).symm
    · rw [View.levelsUnder, levelsUnder_eq base hrest, zipLevels]
      rfl

/-- The entries of views on one level and of views on the next, level by level. -/
def inOrder (ahead next : List (Path × View)) : List (Path × Entry) :=
  (zipLevels ([] :: levelsOf next) (levelsOf ahead)).flatten

@[simp] theorem inOrder_nil (next : List (Path × View)) : inOrder [] next = inOrder next [] := by
  unfold inOrder
  cases h : levelsOf next with
  | nil => simp [levelsOf]
  | cons level levels => simp [levelsOf, zipLevels]

/-- **One view of a level**: its entries come first, and their views go to the end of the next level. -/
theorem inOrder_cons (base : Path) (v : View) (ahead next : List (Path × View)) :
    inOrder ((base, v) :: ahead) next = v.entriesAt base ++ inOrder ahead (next ++ v.viewsAt base) := by
  unfold inOrder
  rcases eq_or_ne v .empty with rfl | hv
  · have hviews : View.empty.viewsAt base = [] := rfl
    rw [hviews, List.append_nil, levelsOf_cons, View.levelsUnder, View.zipLevels_nil_left]
    rfl
  · rw [levelsOf_cons, levelsUnder_eq base hv, ← zipLevels_assoc, zipLevels, levelsOf_append,
      List.nil_append, flatten_zipLevels_cons]

/-! ### Steps of a search -/

/-- **What a search still has to hand out**: what it has found, and what passes the test in the views
ahead, which are the rest of one level and the views met on it so far. -/
def Yields (test : Entry → Bool) (s : Search) (l : List (Path × Entry)) : Prop :=
  ∃ level next, s.ahead = level ++ next ∧
    l = s.found ++ (inOrder level next).filter fun found => test found.2

/-- A view ahead can be taken to be on the level that is not yet done. -/
theorem exists_of_yields {ahead : List (Path × View)}
    (h : Yields test ⟨[], (base, v) :: ahead⟩ l) : ∃ level next, ahead = level ++ next ∧
      l = (inOrder ((base, v) :: level) next).filter fun found => test found.2 := by
  obtain ⟨level, next, hahead, rfl⟩ := h
  cases level with
  | nil =>
    obtain rfl : (base, v) :: ahead = next := hahead
    exact ⟨ahead, [], (List.append_nil _).symm, by rw [inOrder_nil, List.nil_append]⟩
  | cons below level =>
    obtain ⟨rfl, rfl⟩ := List.cons.inj hahead
    exact ⟨level, next, rfl, rfl⟩

theorem Yields.look {ahead : List (Path × View)} (h : Yields test ⟨[], (base, v) :: ahead⟩ l) :
    (look test base v ahead).Yields test l := by
  obtain ⟨level, next, rfl, rfl⟩ := exists_of_yields h
  refine ⟨level, next ++ v.viewsAt base, List.append_assoc _ _ _, ?_⟩
  rw [inOrder_cons, List.filter_append]
  rfl

theorem Yields.next? (h : s.Yields test l) : (l = [] ∧ s.next? test = none) ∨
    ∃ found more t, l = found :: more ∧ s.next? test = some (found, t) ∧ t.Yields test more := by
  induction s using next?.induct test with
  | case1 found more ahead =>
    obtain ⟨level, next, hahead, rfl⟩ := h
    exact .inr ⟨found, _, ⟨more, ahead⟩, rfl, by rw [Search.next?], level, next, hahead, rfl⟩
  | case2 =>
    obtain ⟨level, next, hahead, rfl⟩ := h
    obtain ⟨rfl, rfl⟩ := List.append_eq_nil_iff.1 hahead.symm
    exact .inl ⟨rfl, by rw [Search.next?]⟩
  | case3 base v ahead ih =>
    rw [Search.next?]
    exact ih h.look

theorem Yields.all (h : s.Yields test l) : s.all test = l := by
  induction l generalizing s with
  | nil =>
    obtain ⟨-, hnext⟩ | ⟨found, more, t, hl, -, -⟩ := h.next?
    · rw [Search.all, hnext]
    · cases hl
  | cons first l ih =>
    obtain ⟨hl, -⟩ | ⟨found, more, t, hl, hnext, ht⟩ := h.next?
    · cases hl
    · obtain ⟨rfl, rfl⟩ := List.cons.inj hl
      rw [Search.all, hnext]
      exact congrArg (first :: ·) (ih ht)

/-! ### Searches through a view -/

theorem yields_start (test : Entry → Bool) (v : View) :
    (start v).Yields test (v.breadthFirst.filter fun found => test found.2) := by
  refine ⟨[([], v)], [], rfl, ?_⟩
  have hlevels : levelsOf [([], v)] = v.levelsUnder [] := View.zipLevels_nil_right _
  have horder : inOrder [([], v)] [] = v.breadthFirst := by
    rw [← inOrder_nil, inOrder, hlevels, levelsOf, List.foldr_nil, View.zipLevels_nil_right]
    rfl
  rw [horder]
  rfl

/-- **A search hands out the entries that pass its test, level by level.** -/
theorem all_start (test : Entry → Bool) (v : View) :
    (start v).all test = v.breadthFirst.filter fun found => test found.2 :=
  (yields_start test v).all

/-- **A search for one entry** stops at the first of them. -/
theorem next?_start (test : Entry → Bool) (v : View) :
    ((start v).next? test).map (·.1) = ((start v).all test).head? := by
  obtain ⟨hall, hnext⟩ | ⟨found, more, t, hall, hnext, -⟩ := (yields_start test v).next?
  · rw [all_start, hall, hnext]
    rfl
  · rw [all_start, hall, hnext]
    rfl

end SparqlViews.Search
