import SparqlViews.View.Basic
import SparqlViews.View.Path

/-! # Searching a view

A search looks through a view, and then through the views of its entries in the order in which it came
upon them. It hands out what it finds one by one, and looks further only when it has nothing left to
hand out, so that a search for one entry can stop there.

* `Search.next?`: the next entry that passes a test, and the search after it.
* `Search.all`: all of them.
-/

namespace SparqlViews

namespace View

/-- The entries of a view that stands at `base`, with their paths. -/
def entriesAt (base : Path) (v : View) : List (Path × Entry) :=
  v.entries.map fun e => (base ++ [e.name], e)

/-- The views of these entries, with the same paths. -/
def viewsAt (base : Path) (v : View) : List (Path × View) :=
  (v.entriesAt base).filterMap fun found => found.2.sub.map fun sub => (found.1, sub)

/-- What there is to look at in a view: itself and all entries in it. -/
def size : View → Nat
  | empty => 1
  | leaf _ rest => 1 + rest.size
  | nested _ sub rest => 1 + sub.size + rest.size

/-- The same for several views. -/
def sizes : List (Path × View) → Nat
  | [] => 0
  | (_, v) :: more => v.size + sizes more

theorem sizes_append : ∀ views more : List (Path × View),
    sizes (views ++ more) = sizes views + sizes more
  | [], more => by simp [sizes]
  | (base, v) :: views, more => by
    rw [List.cons_append, sizes, sizes, sizes_append views, Nat.add_assoc]

end View

/-- **A search on its way.** -/
structure Search where
  /-- Entries that are found and wait to be handed out, with their paths. -/
  found : List (Path × Entry)
  /-- Views still to be looked through, with the paths at which they stand. -/
  ahead : List (Path × View)

namespace Search

/-- The search through a view. -/
def start (v : View) : Search := ⟨[], [([], v)]⟩

def size (s : Search) : Nat := s.found.length + View.sizes s.ahead

theorem size_viewsAt (base : Path) : ∀ v : View,
    View.sizes (v.viewsAt base) + v.entries.length + 1 = v.size
  | .empty => rfl
  | .leaf p rest => by
    have ih := size_viewsAt base rest
    simp only [View.viewsAt, View.entriesAt, View.entries, View.size, List.map_cons,
      List.filterMap_cons, Option.map_none, List.length_cons] at ih ⊢
    omega
  | .nested p sub rest => by
    have ih := size_viewsAt base rest
    simp only [View.viewsAt, View.entriesAt, View.entries, View.size, View.sizes, List.map_cons,
      List.filterMap_cons, Option.map_some, List.length_cons] at ih ⊢
    omega

variable (test : Entry → Bool)

/-- The search after it has looked through a view, with others still ahead. -/
def look (base : Path) (v : View) (ahead : List (Path × View)) : Search where
  found := (v.entriesAt base).filter fun found => test found.2
  ahead := ahead ++ v.viewsAt base

theorem size_look (base : Path) (v : View) (ahead : List (Path × View)) :
    (look test base v ahead).size < size ⟨[], (base, v) :: ahead⟩ := by
  have hsize := size_viewsAt base v
  have hfound : (look test base v ahead).found.length ≤ v.entries.length := by
    simpa [look, View.entriesAt] using
      List.length_filter_le (fun found => test found.2) (v.entriesAt base)
  simp only [size, look, View.sizes_append, View.sizes, List.length_nil] at hfound ⊢
  omega

/-- **The next entry that passes the test**, and the search after it. -/
@[semireducible]
def next? : Search → Option ((Path × Entry) × Search)
  | ⟨found :: more, ahead⟩ => some (found, ⟨more, ahead⟩)
  | ⟨[], []⟩ => none
  | ⟨[], (base, v) :: ahead⟩ => next? (look test base v ahead)
termination_by s => s.size
decreasing_by exact size_look test base v ahead

theorem size_next? {s t : Search} {found : Path × Entry} (h : s.next? test = some (found, t)) :
    t.size < s.size := by
  induction s using next?.induct test with
  | case1 first more ahead =>
    rw [next?] at h
    obtain ⟨rfl, rfl⟩ := Prod.mk.inj (Option.some.inj h)
    simp [size]
  | case2 =>
    rw [next?] at h
    cases h
  | case3 base v ahead ih =>
    rw [next?] at h
    exact Nat.lt_trans (ih h) (size_look test base v ahead)

/-- **All entries that pass the test**, in the order in which they are handed out. -/
@[semireducible]
def all (s : Search) : List (Path × Entry) :=
  match _next : s.next? test with
  | none => []
  | some (found, after) => found :: all after
termination_by s.size
decreasing_by exact size_next? test _next

end Search

end SparqlViews
