import SparqlViews.Proofs.Table
import SparqlViews.Proofs.View.Columns

/-! # The order of the variables of a view

Each path of a view has a place among the variables of the view (`View.rank`). The variable of an entry
and those of its own view stand together, with nothing else among them (`View.infix_clauses_of_find?`,
`View.prefix_of_between`). So two entries of one list of siblings stand in the same order as whatever lies on or
below them (`View.rank_lt_of_below`).

* `View.ownVars`: the variables on and below an entry.
* `View.pairwise_rank_columns`: the columns of a view stand in this order.
-/

namespace SparqlViews

namespace View

variable {v : View} {root name : String} {base names p q r x y : Path} {e : Entry}

/-! ### The variables of an entry -/

/-- The variables on and below an entry that stands at a path. -/
def ownVars (root : String) (here : Path) (e : Entry) : List String :=
  Path.toVariable root here ::
    match e.sub with
    | none => []
    | some sub => (sub.clauses root here).all

/-- A block of variables in one of the groups of a level. -/
def Clauses.Holds (c : Clauses) (block : List String) : Prop :=
  block <:+: c.leaves ∨ block <:+: c.nested ∨ block <:+: c.optional

namespace Clauses

variable {c : Clauses} {block : List String}

theorem Holds.all (h : c.Holds block) : block <:+: c.all := by
  rw [Clauses.all]
  rcases h with h | h | h
  · exact h.trans ((List.prefix_append _ _).isInfix.trans (List.prefix_append _ _).isInfix)
  · exact h.trans ((List.suffix_append _ _).isInfix.trans (List.prefix_append _ _).isInfix)
  · exact h.trans (List.suffix_append _ _).isInfix

theorem Holds.leaves (h : c.Holds block) (own : List String) :
    ({ c with leaves := own ++ c.leaves } : Clauses).Holds block :=
  h.imp (fun h => h.trans (List.suffix_append own _).isInfix) id

theorem Holds.nested (h : c.Holds block) (own : List String) :
    ({ c with nested := own ++ c.nested } : Clauses).Holds block :=
  h.imp id (Or.imp (fun h => h.trans (List.suffix_append own _).isInfix) id)

theorem Holds.optional (h : c.Holds block) (own : List String) :
    ({ c with optional := own ++ c.optional } : Clauses).Holds block :=
  h.imp id (Or.imp id fun h => h.trans (List.suffix_append own _).isInfix)

end Clauses

/-- **The variables of an entry stand together** in one of the groups of its level. -/
theorem holds_ownVars (root : String) (base : Path) : ∀ {v : View}, v.get? name = some e →
    (v.clauses root base).Holds (ownVars root (base ++ [name]) e)
  | leaf s rest, h => by
    rw [get?_leaf] at h
    rw [clauses]
    split at h
    · rename_i hname
      cases h
      subst hname
      split
      · exact .inr (.inr (List.prefix_append [_] _).isInfix)
      · exact .inl (List.prefix_append [_] _).isInfix
    · have ih := holds_ownVars root base h
      split
      · exact ih.optional [_]
      · exact ih.leaves [_]
  | nested s sub rest, h => by
    rw [get?_nested] at h
    rw [clauses]
    split at h
    · rename_i hname
      cases h
      subst hname
      split
      · exact .inr (.inr (List.prefix_append _ _).isInfix)
      · exact .inr (.inl (List.prefix_append _ _).isInfix)
    · have ih := holds_ownVars root base h
      split
      · exact ih.optional _
      · exact ih.nested _

theorem infix_clauses_of_find? (root : String) (h : v.find? p = some e) :
    ownVars root (base ++ p) e <:+: (v.clauses root base).all := by
  induction p generalizing v base with
  | nil => exact absurd rfl (ne_nil_of_find? h)
  | cons name q ih =>
    obtain ⟨d, hget, ⟨rfl, rfl⟩ | ⟨sub, hsub, h⟩⟩ := exists_of_find?_cons h
    · exact (holds_ownVars root base hget).all
    · have hbelow : (sub.clauses root (base ++ [name])).all <:+: ownVars root (base ++ [name]) d := by
        rw [ownVars, hsub]
        exact (List.suffix_cons _ _).isInfix
      have hin : ownVars root (base ++ [name] ++ q) e <:+: (sub.clauses root (base ++ [name])).all := ih h
      rw [List.append_assoc, List.singleton_append] at hin
      exact hin.trans (hbelow.trans (holds_ownVars root base hget).all)

/-! ### Paths below an entry -/

theorem append_mem_paths_iff {sub : View} (hv : v.WellFormed) (he : v.find? p = some e)
    (hsub : e.sub = some sub) (hq : q ≠ []) : p ++ q ∈ v.paths ↔ q ∈ sub.paths := by
  rw [mem_paths_iff hv, mem_paths_iff (hv.of_find? he sub hsub), find?_append (ne_nil_of_find? he) hq, he,
    Option.bind_some, hsub, Option.bind_some]

/-- **The variables of an entry are those of the paths on and below it.** -/
theorem mem_ownVars_iff (hv : v.WellFormed) (he : v.find? r = some e) (hx : x ∈ v.paths) :
    Path.toVariable root x ∈ ownVars root r e ↔ r <+: x := by
  have hr : r ∈ v.paths := (mem_paths_iff hv).2 (by rw [he, Option.isSome_some])
  have hbelow : ∀ sub, e.sub = some sub →
      (Path.toVariable root x ∈ (sub.clauses root r).all ↔ ∃ q ∈ sub.paths, r ++ q = x) := by
    intro sub hsub
    rw [(perm_clauses root sub r).mem_iff, pathsUnder_eq, List.map_map, List.mem_map]
    refine exists_congr fun q => and_congr_right fun hq => ?_
    have hpath := (append_mem_paths_iff hv he hsub (ne_nil_of_mem_paths hq)).2 hq
    exact ⟨fun h => toVariable_inj hv hpath hx h, fun h => congrArg (Path.toVariable root) h⟩
  rw [ownVars, List.mem_cons]
  constructor
  · rintro (h | h)
    · rw [toVariable_inj hv hx hr h]
    · cases hsub : e.sub with
      | none => simp [hsub] at h
      | some sub =>
        rw [hsub] at h
        obtain ⟨q, -, rfl⟩ := (hbelow sub hsub).1 h
        exact List.prefix_append r q
  · rintro ⟨q, rfl⟩
    rcases eq_or_ne q [] with rfl | hq
    · exact .inl (by rw [List.append_nil])
    · have hfind := (mem_paths_iff hv).1 hx
      rw [find?_append (ne_nil_of_mem_paths hr) hq, he, Option.bind_some] at hfind
      cases hsub : e.sub with
      | none => simp [hsub] at hfind
      | some sub =>
        exact .inr ((hbelow sub hsub).2 ⟨q, (append_mem_paths_iff hv he hsub hq).1 hx, rfl⟩)

/-! ### Places -/

/-- **The place of a path** among the variables of a view. -/
def rank (root : String) (v : View) (p : Path) : ℕ := (v.vars root).idxOf (Path.toVariable root p)

/-- **Keys of entries on one level stand in the order of the view.** -/
def InOrder (root : String) (v : View) (above : Path) (keys : List String) : Prop :=
  keys.Pairwise fun a b => v.rank root (above ++ [a]) < v.rank root (above ++ [b])

instance (root : String) (v : View) (above : Path) (keys : List String) :
    Decidable (v.InOrder root above keys) :=
  inferInstanceAs (Decidable (keys.Pairwise _))

theorem mem_vars (root : String) (h : p ∈ v.paths) : Path.toVariable root p ∈ v.vars root :=
  (perm_vars root v).mem_iff.2 (List.mem_cons_of_mem _ (List.mem_map_of_mem h))

theorem rank_inj (hv : v.WellFormed) (hp : p ∈ v.paths) (hq : q ∈ v.paths) :
    v.rank root p = v.rank root q ↔ p = q := by
  rw [rank, rank, List.idxOf_inj (mem_vars root hp)]
  exact ⟨toVariable_inj hv hp hq, congrArg (Path.toVariable root)⟩

section Order

variable (hv : v.WellFormed) (hroot : ∀ p ∈ v.paths, Path.toVariable root p ≠ root)
include hv hroot

theorem nodup_vars : (v.vars root).Nodup := by
  rw [nodup_vars_iff hv]
  rintro ⟨p, hp, h⟩
  exact hroot p hp h

/-- **The columns of a view stand in the order of their places.** -/
theorem pairwise_rank_columns :
    (v.columns root).Pairwise fun c d => v.rank root c.2 < v.rank root d.2 := by
  have hvars := (pairwise_idxOf (nodup_vars hv hroot)).sublist (List.tail_sublist (v.vars root))
  rw [← map_fst_columns hroot, List.pairwise_map] at hvars
  refine hvars.imp_of_mem fun hc hd hlt => ?_
  obtain ⟨p, -, rfl⟩ := (mem_columns hv hroot).1 hc
  obtain ⟨q, -, rfl⟩ := (mem_columns hv hroot).1 hd
  exact hlt

theorem rank_le_of_beginning (hp : p ∈ v.paths) (hq : q ∈ v.paths) (h : p <+: q) :
    v.rank root p ≤ v.rank root q := by
  rcases eq_or_ne p q with rfl | hne
  · exact Nat.le_refl _
  · have hpair := (pairwise_rank_columns hv hroot).sublist (sublist_columns hv hroot hq hp h hne)
    exact Nat.le_of_lt (List.rel_of_pairwise_cons hpair List.mem_cons_self)

/-- **What has its place between an entry and what is below it is below it too.** -/
theorem prefix_of_between (hr : r ∈ v.paths) (hx : x ∈ v.paths) (hy : y ∈ v.paths) (hry : r <+: y)
    (hrx : v.rank root r ≤ v.rank root x) (hxy : v.rank root x ≤ v.rank root y) : r <+: x := by
  obtain ⟨e, he⟩ := Option.isSome_iff_exists.1 ((mem_paths_iff hv).1 hr)
  obtain ⟨pre, post, hsplit⟩ : ownVars root ([] ++ r) e <:+: (v.clauses root []).all :=
    infix_clauses_of_find? root he
  have hvars : v.vars root = (root :: pre) ++ ownVars root r e ++ post := congrArg (root :: ·) hsplit.symm
  have hnodup := nodup_vars hv hroot
  rw [rank, rank, hvars] at hrx hxy
  rw [hvars] at hnodup
  have hblock : Path.toVariable root x ∈ ownVars root r e :=
    mem_of_idxOf_between ((mem_ownVars_iff hv he hr).2 List.prefix_rfl)
      ((mem_ownVars_iff hv he hy).2 hry) hnodup hrx hxy
  exact (mem_ownVars_iff hv he hx).1 hblock

/-- **Siblings stand in the order of what lies on or below them.** -/
theorem rank_lt_of_below {a b : String} (hab : a ≠ b) (hp : p ∈ v.paths) (hq : q ∈ v.paths)
    (ha : names ++ [a] <+: p) (hb : names ++ [b] <+: q) (hlt : v.rank root p < v.rank root q) :
    v.rank root (names ++ [a]) < v.rank root (names ++ [b]) := by
  have hpa := mem_paths_of_beginning hv (by simp) ha hp
  have hpb := mem_paths_of_beginning hv (by simp) hb hq
  by_contra hge
  -- else the first sibling has its place between the second one and what is below that
  have hle := rank_le_of_beginning hv hroot hpa hp ha
  have hbetween := prefix_of_between hv hroot hpb hpa hq hb (by omega) (by omega)
  have heq := hbetween.eq_of_length (by simp)
  exact hab (List.append_cancel_left heq |> List.singleton_inj.1).symm

end Order

end View

end SparqlViews
