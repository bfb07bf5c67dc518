import Mathlib.Data.List.Basic
import SparqlViews.Proofs.View.Paths

/-! # The levels of a view

The entries of a view lie on levels, by the lengths of their paths. Level by level every entry comes once
(`mem_breadthFirst_iff`), and on one level the entries come in the order of the document: by their
positions among siblings, the outermost first (`pairwise_breadthFirst`).

* `levelsUnder`, `breadthFirst`: the entries by levels, and one level after the other.
* `places`: the positions of the names on a path, each among its siblings.
* `Precedes`: the order of paths by their lengths and then by these positions.
-/

namespace SparqlViews

/-- Two lists of levels, level by level. -/
def View.zipLevels {α : Type} : List (List α) → List (List α) → List (List α)
  | [], below => below
  | above, [] => above
  | a :: above, b :: below => (a ++ b) :: zipLevels above below

namespace View

section Zip

variable {α β : Type}

@[simp]
theorem zipLevels_nil_left (below : List (List α)) : zipLevels [] below = below := by
  simp [zipLevels]

@[simp]
theorem zipLevels_nil_right (above : List (List α)) : zipLevels above [] = above := by
  cases above <;> rfl

theorem zipLevels_assoc : ∀ a b c : List (List α),
    zipLevels (zipLevels a b) c = zipLevels a (zipLevels b c)
  | [], b, c => by simp
  | a, [], c => by simp
  | a, b, [] => by simp
  | a :: as, b :: bs, c :: cs => by
    simp only [zipLevels, List.append_assoc, zipLevels_assoc as bs cs]

theorem map_zipLevels (f : α → β) : ∀ a b : List (List α),
    (zipLevels a b).map (List.map f) = zipLevels (a.map (List.map f)) (b.map (List.map f))
  | [], b => by simp
  | a, [] => by simp
  | a :: as, b :: bs => by
    simp only [zipLevels, List.map_cons, List.map_append, map_zipLevels f as bs]

theorem flatten_zipLevels_cons (a : List α) (above below : List (List α)) :
    (zipLevels (a :: above) below).flatten = a ++ (zipLevels ([] :: above) below).flatten := by
  cases below with
  | nil => simp
  | cons b below => simp [zipLevels]

theorem perm_zipLevels : ∀ above below : List (List α),
    (zipLevels above below).flatten.Perm (above.flatten ++ below.flatten)
  | [], below => by simp [zipLevels]
  | a :: above, [] => by simp [zipLevels]
  | a :: above, b :: below => by
    have ih := perm_zipLevels above below
    rw [zipLevels, List.flatten_cons, List.flatten_cons, List.flatten_cons, List.append_assoc,
      List.append_assoc]
    refine List.Perm.append_left a ?_
    exact (ih.append_left b).trans (List.perm_append_comm_assoc b _ _)

theorem mem_zipLevels {x : α} {above below : List (List α)} :
    x ∈ (zipLevels above below).flatten ↔ x ∈ above.flatten ∨ x ∈ below.flatten := by
  rw [(perm_zipLevels above below).mem_iff, List.mem_append]

end Zip

variable {v rest : View} {p q : Path} {e : Entry} {own m n : String}

/-! ### The entries by levels -/

/-- The entries below a path with their paths, by their depth. -/
def levelsUnder (base : Path) : View → List (List (Path × Entry))
  | empty => []
  | leaf p rest => zipLevels [[(base ++ [p.name], ⟨p, none⟩)]] (rest.levelsUnder base)
  | nested p sub rest =>
    zipLevels ([(base ++ [p.name], ⟨p, some sub⟩)] :: sub.levelsUnder (base ++ [p.name]))
      (rest.levelsUnder base)

/-- **Every entry with its path, level by level.** -/
def breadthFirst (v : View) : List (Path × Entry) := (v.levelsUnder []).flatten

theorem perm_levelsUnder : ∀ (v : View) (base : Path),
    ((v.levelsUnder base).flatten.map (·.1)).Perm (v.pathsUnder base)
  | empty, base => .refl _
  | leaf p rest, base => by
    have ih := perm_levelsUnder rest base
    rw [levelsUnder, pathsUnder]
    exact ((perm_zipLevels _ _).map _).trans (ih.cons (base ++ [p.name]))
  | nested p sub rest, base => by
    have ih := perm_levelsUnder rest base
    have ihsub := perm_levelsUnder sub (base ++ [p.name])
    rw [levelsUnder, pathsUnder]
    refine ((perm_zipLevels _ _).map _).trans ?_
    rw [List.map_append, List.flatten_cons, List.map_append]
    exact (ihsub.append ih).cons (base ++ [p.name])

/-- **Going level by level meets every path of a view once.** -/
theorem perm_breadthFirst (v : View) : (v.breadthFirst.map (·.1)).Perm v.paths :=
  perm_levelsUnder v []

/-! ### Entries behind the first -/

theorem get?_leaf_of_ne {p : Property} (h : m ≠ p.name) : (leaf p rest).get? m = rest.get? m := by
  simp [Ne.symm h]

theorem get?_nested_of_ne {p : Property} {sub : View} (h : m ≠ p.name) :
    (nested p sub rest).get? m = rest.get? m := by
  simp [Ne.symm h]

theorem find?_of_rest (hown : own ∉ rest.names) (hget : ∀ m, m ≠ own → v.get? m = rest.get? m)
    (h : rest.find? q = some e) : v.find? q = some e := by
  cases q with
  | nil => simp at h
  | cons m q =>
    have hm : m ∈ rest.names := by
      obtain ⟨d, hd, -⟩ := exists_of_find?_cons h
      rw [← get?_isSome, hd, Option.isSome_some]
    have hne : m ≠ own := by
      rintro rfl
      exact hown hm
    rw [find?_congr (hget m hne), h]

theorem exists_find?_of_mem_levelsUnder : ∀ {v : View}, v.WellFormed → ∀ {base : Path}
    {x : Path × Entry}, x ∈ (v.levelsUnder base).flatten →
      ∃ q, x.1 = base ++ q ∧ v.find? q = some x.2
  | empty, _, _, _, hx => by simp [levelsUnder] at hx
  | leaf p rest, hv, base, x, hx => by
    rw [levelsUnder, mem_zipLevels] at hx
    rcases hx with hx | hx
    · obtain rfl : x = (base ++ [p.name], ⟨p, none⟩) := by simpa using hx
      exact ⟨[p.name], rfl, by simp⟩
    · obtain ⟨q, hbase, hq⟩ := exists_find?_of_mem_levelsUnder hv.2.2 hx
      exact ⟨q, hbase, find?_of_rest hv.2.1 (fun m hm => get?_leaf_of_ne hm) hq⟩
  | nested p sub rest, hv, base, x, hx => by
    have hget : (nested p sub rest).get? p.name = some ⟨p, some sub⟩ := by simp
    rw [levelsUnder, mem_zipLevels, List.flatten_cons, List.mem_append] at hx
    rcases hx with (hx | hx) | hx
    · obtain rfl : x = (base ++ [p.name], ⟨p, some sub⟩) := by simpa using hx
      exact ⟨[p.name], rfl, by simp⟩
    · obtain ⟨q, hbase, hq⟩ := exists_find?_of_mem_levelsUnder hv.2.2.1 hx
      have hne : q ≠ [] := by
        rintro rfl
        simp at hq
      refine ⟨p.name :: q, by rw [hbase, List.append_assoc]; rfl, ?_⟩
      rw [find?_cons _ _ hne, hget]
      exact hq
    · obtain ⟨q, hbase, hq⟩ := exists_find?_of_mem_levelsUnder hv.2.2.2 hx
      exact ⟨q, hbase, find?_of_rest hv.2.1 (fun m hm => get?_nested_of_ne hm) hq⟩

/-- **Going level by level meets every entry**, with its path. -/
theorem mem_breadthFirst_iff (hv : v.WellFormed) : (p, e) ∈ v.breadthFirst ↔ v.find? p = some e := by
  have hfound : ∀ {x : Path × Entry}, x ∈ v.breadthFirst → v.find? x.1 = some x.2 := by
    intro x hx
    obtain ⟨q, hq, he⟩ := exists_find?_of_mem_levelsUnder hv hx
    rwa [hq]
  refine ⟨hfound, fun h => ?_⟩
  have hp : p ∈ v.paths := (mem_paths_iff hv).2 (by rw [h, Option.isSome_some])
  obtain ⟨⟨q, d⟩, hx, rfl⟩ := List.mem_map.1 ((perm_breadthFirst v).mem_iff.2 hp)
  rw [hfound hx] at h
  rwa [← Option.some.inj h]

/-! ### The order within a level -/

/-- **The positions of the names on a path**, each among the entries of its view. -/
def places (v : View) : Path → List ℕ
  | [] => []
  | name :: rest =>
    v.names.idxOf name ::
      match (v.get? name).bind Entry.sub with
      | some sub => sub.places rest
      | none => []

/-- **Paths by their lengths**, and by the positions of their names if they are equally long. -/
def Precedes (v : View) (p q : Path) : Prop :=
  p.length < q.length ∨ p.length = q.length ∧ v.places p < v.places q

@[simp] theorem not_precedes_self (v : View) (p : Path) : ¬ v.Precedes p p := by
  rintro (h | ⟨-, h⟩)
  · exact Nat.lt_irrefl _ h
  · exact List.lt_irrefl _ h

theorem Precedes.ne (h : v.Precedes p q) : p ≠ q := by
  rintro rfl
  exact not_precedes_self v p h

theorem Precedes.not_symm (h : v.Precedes p q) : ¬ v.Precedes q p := by
  rcases h with h | ⟨hlen, h⟩
  · rintro (hback | ⟨hback, -⟩) <;> omega
  · rintro (hback | ⟨-, hback⟩)
    · omega
    · exact List.lt_asymm h hback

section Behind

variable (hnames : v.names = own :: rest.names) (hget : ∀ m, m ≠ own → v.get? m = rest.get? m)
include hnames

theorem places_own_lt (hm : m ≠ own) (p q : Path) : v.places (own :: p) < v.places (m :: q) := by
  rw [places, places, hnames, List.idxOf_cons_self, List.idxOf_cons_ne _ (Ne.symm hm),
    List.cons_lt_cons_iff]
  exact .inl (Nat.succ_pos _)

include hget

theorem places_lt_iff (hm : m ≠ own) (hn : n ≠ own) (p q : Path) :
    v.places (m :: p) < v.places (n :: q) ↔ rest.places (m :: p) < rest.places (n :: q) := by
  rw [places, places, places, places, hget m hm, hget n hn, hnames,
    List.idxOf_cons_ne _ (Ne.symm hm), List.idxOf_cons_ne _ (Ne.symm hn), List.cons_lt_cons_iff,
    List.cons_lt_cons_iff, Nat.succ_lt_succ_iff, Nat.succ_inj]

end Behind

/-- The paths of a view by levels. -/
def pathLevels : View → List (List Path)
  | empty => []
  | leaf p rest => zipLevels [[[p.name]]] rest.pathLevels
  | nested p sub rest =>
    zipLevels ([[p.name]] :: sub.pathLevels.map (List.map (p.name :: ·))) rest.pathLevels

theorem map_levelsUnder : ∀ (v : View) (base : Path), (v.levelsUnder base).map (List.map (·.1)) =
    v.pathLevels.map (List.map (base ++ ·))
  | empty, base => rfl
  | leaf p rest, base => by
    rw [levelsUnder, pathLevels, map_zipLevels, map_zipLevels, map_levelsUnder rest]
    rfl
  | nested p sub rest, base => by
    rw [levelsUnder, pathLevels, map_zipLevels, map_zipLevels, map_levelsUnder rest, List.map_cons,
      map_levelsUnder sub]
    simp [Function.comp_def]

theorem map_breadthFirst (v : View) : v.breadthFirst.map (·.1) = v.pathLevels.flatten := by
  rw [breadthFirst, List.map_flatten, map_levelsUnder]
  simp

/-- **Levels of paths**, the first of length `n`, each ordered by a relation. -/
def Ranked (R : Path → Path → Prop) : ℕ → List (List Path) → Prop
  | _, [] => True
  | n, level :: below => (∀ p ∈ level, p.length = n) ∧ level.Pairwise R ∧ Ranked R (n + 1) below

namespace Ranked

variable {R S : Path → Path → Prop} {k : ℕ} {above below levels : List (List Path)}

theorem zip (habove : Ranked R k above) (hbelow : Ranked R k below)
    (h : ∀ p ∈ above.flatten, ∀ q ∈ below.flatten, R p q) : Ranked R k (zipLevels above below) := by
  induction above generalizing k below with
  | nil => simpa using hbelow
  | cons a above ih =>
    cases below with
    | nil => simpa using habove
    | cons b below =>
      obtain ⟨hlen, hpair, habove⟩ := habove
      obtain ⟨hlen', hpair', hbelow⟩ := hbelow
      refine ⟨fun p hp => ?_, ?_, ih habove hbelow fun p hp q hq => h p ?_ q ?_⟩
      · rcases List.mem_append.1 hp with hp | hp
        · exact hlen p hp
        · exact hlen' p hp
      · refine List.pairwise_append.2 ⟨hpair, hpair', fun p hp q hq => h p ?_ q ?_⟩
        · exact List.mem_flatten_of_mem List.mem_cons_self hp
        · exact List.mem_flatten_of_mem List.mem_cons_self hq
      · rw [List.flatten_cons]
        exact List.mem_append_right _ hp
      · rw [List.flatten_cons]
        exact List.mem_append_right _ hq

theorem imp (hlevels : Ranked R k levels)
    (h : ∀ p ∈ levels.flatten, ∀ q ∈ levels.flatten, R p q → S p q) : Ranked S k levels := by
  induction levels generalizing k with
  | nil => trivial
  | cons level levels ih =>
    obtain ⟨hlen, hpair, hlevels⟩ := hlevels
    simp only [List.flatten_cons, List.mem_append] at h
    refine ⟨hlen, ?_, ih hlevels fun p hp q hq => h p (.inr hp) q (.inr hq)⟩
    exact hpair.imp_of_mem fun hp hq => h _ (.inl hp) _ (.inl hq)

theorem cons (name : String) (hlevels : Ranked R k levels)
    (h : ∀ p q, R p q → S (name :: p) (name :: q)) :
    Ranked S (k + 1) (levels.map (List.map (name :: ·))) := by
  induction levels generalizing k with
  | nil => trivial
  | cons level levels ih =>
    obtain ⟨hlen, hpair, hlevels⟩ := hlevels
    refine ⟨fun p hp => ?_, List.pairwise_map.2 (hpair.imp (h _ _)), ih hlevels⟩
    obtain ⟨q, hq, rfl⟩ := List.mem_map.1 hp
    rw [List.length_cons, hlen q hq]

theorem le_length (hlevels : Ranked R k levels) : ∀ p ∈ levels.flatten, k ≤ p.length := by
  induction levels generalizing k with
  | nil => simp
  | cons level levels ih =>
    intro p hp
    rw [List.flatten_cons, List.mem_append] at hp
    rcases hp with hp | hp
    · exact Nat.le_of_eq (hlevels.1 p hp).symm
    · have := ih hlevels.2.2 p hp
      omega

theorem pairwise_flatten (hlevels : Ranked R k levels) : levels.flatten.Pairwise fun p q =>
    p.length < q.length ∨ p.length = q.length ∧ R p q := by
  induction levels generalizing k with
  | nil => simp
  | cons level levels ih =>
    obtain ⟨hlen, hpair, hlevels⟩ := hlevels
    rw [List.flatten_cons, List.pairwise_append]
    refine ⟨hpair.imp_of_mem fun hp hq hR => .inr ⟨?_, hR⟩, ih hlevels, fun p hp q hq => .inl ?_⟩
    · rw [hlen _ hp, hlen _ hq]
    · rw [hlen p hp]
      exact hlevels.le_length q hq

end Ranked

theorem mem_paths_of_mem_pathLevels (h : p ∈ v.pathLevels.flatten) : p ∈ v.paths := by
  rw [← map_breadthFirst] at h
  exact (perm_breadthFirst v).mem_iff.1 h

/-- **Each level is in the order of the document.** -/
theorem ranked_pathLevels : ∀ {v : View}, v.WellFormed →
    Ranked (fun p q => v.places p < v.places q) 1 v.pathLevels
  | empty, _ => trivial
  | leaf p rest, hv => by
    have hbehind : ∀ q ∈ rest.pathLevels.flatten, ∃ m t, q = m :: t ∧ m ≠ p.name := fun q hq =>
      exists_cons_of_mem_rest hv.2.1 (mem_paths_of_mem_pathLevels hq)
    refine Ranked.zip ⟨by simp, by simp, trivial⟩ ((ranked_pathLevels hv.2.2).imp ?_) ?_
    · intro q hq r hr h
      obtain ⟨m, t, rfl, hm⟩ := hbehind q hq
      obtain ⟨n, u, rfl, hn⟩ := hbehind r hr
      exact (places_lt_iff rfl (fun m hm => get?_leaf_of_ne hm) hm hn t u).2 h
    · intro q hq r hr
      obtain ⟨m, t, rfl, hm⟩ := hbehind r hr
      obtain rfl : q = [p.name] := by simpa using hq
      exact places_own_lt rfl hm [] t
  | nested p sub rest, hv => by
    have hbehind : ∀ q ∈ rest.pathLevels.flatten, ∃ m t, q = m :: t ∧ m ≠ p.name := fun q hq =>
      exists_cons_of_mem_rest hv.2.1 (mem_paths_of_mem_pathLevels hq)
    refine Ranked.zip ⟨by simp, by simp, ?_⟩ ((ranked_pathLevels hv.2.2.2).imp ?_) ?_
    · refine (ranked_pathLevels hv.2.2.1).cons p.name fun q r h => ?_
      rw [places, places, get?_nested, if_pos rfl, List.cons_lt_cons_iff]
      exact .inr ⟨rfl, h⟩
    · intro q hq r hr h
      obtain ⟨m, t, rfl, hm⟩ := hbehind q hq
      obtain ⟨n, u, rfl, hn⟩ := hbehind r hr
      exact (places_lt_iff rfl (fun m hm => get?_nested_of_ne hm) hm hn t u).2 h
    · intro q hq r hr
      obtain ⟨m, t, rfl, hm⟩ := hbehind r hr
      obtain ⟨t', rfl⟩ : ∃ t', q = p.name :: t' := by
        rw [List.flatten_cons, List.mem_append, List.mem_singleton, ← List.map_flatten] at hq
        rcases hq with rfl | hq
        · exact ⟨[], rfl⟩
        · obtain ⟨t', -, rfl⟩ := List.mem_map.1 hq
          exact ⟨t', rfl⟩
      exact places_own_lt rfl hm t' t

/-- **Going level by level meets the entries in order.** -/
theorem pairwise_breadthFirst (hv : v.WellFormed) : (v.breadthFirst.map (·.1)).Pairwise v.Precedes := by
  rw [map_breadthFirst]
  exact (ranked_pathLevels hv).pairwise_flatten

end View

end SparqlViews
