import Mathlib.Data.List.Induction
import Mathlib.Data.List.Nodup
import Mathlib.Data.String.Basic
import SparqlViews.Table

/-! # Tables and lists of names

A table made of entries with distinct names holds just these entries, in ascending order, whatever
order they came in (`perm_entries_ofList`, `ofList_congr`). A list of names without its repetitions
has each name at the place where it stood first (`pairwise_eraseDups`).

* `mem_of_idxOf_between`, `findIdx_lt_or_of_idxOf_lt`, `pairwise_place_iff`: what follows from the places of
  names in a list that is made of blocks, or ordered by two measures.
-/

namespace SparqlViews

/-! ### Tables -/

namespace Table

variable {α : Type} {t : Table α} {name : String} {value : α} {l l' : List (String × α)}

@[simp] theorem nodup_names (t : Table α) : (t.entries.map Prod.fst).Nodup :=
  (List.pairwise_map.2 t.ascending).imp fun h => ne_of_lt h

theorem mem_entries_of_get? (h : t.get? name = some value) : (name, value) ∈ t.entries := by
  obtain ⟨e, he, rfl⟩ := Option.map_eq_some_iff.1 h
  have hname : e.1 = name := by simpa using List.find?_some he
  rw [← hname]
  exact List.mem_of_find?_eq_some he

theorem get?_eq_some_iff : t.get? name = some value ↔ (name, value) ∈ t.entries := by
  refine ⟨mem_entries_of_get?, fun h => ?_⟩
  cases hget : t.get? name with
  | none =>
    rw [get?, Option.map_eq_none_iff] at hget
    exact absurd (decide_eq_true rfl) (List.find?_eq_none.1 hget _ h)
  | some other =>
    have := List.inj_on_of_nodup_map t.nodup_names (mem_entries_of_get? hget) h rfl
    rw [(Prod.mk.inj this).2]

theorem perm_insertInto (h : name ∉ l.map Prod.fst) :
    (insertInto name value l).Perm ((name, value) :: l) := by
  induction l with
  | nil => exact .refl _
  | cons e rest ih =>
    rw [List.map_cons, List.mem_cons, not_or] at h
    rw [insertInto]
    split
    · exact .refl _
    · rw [if_neg h.1]
      exact ((ih h.2).cons e).trans (.swap ..)

theorem perm_entries_insertAll : ∀ {l : List (String × α)} {t : Table α},
    (t.entries.map Prod.fst ++ l.map Prod.fst).Nodup → (t.insertAll l).entries.Perm (t.entries ++ l)
  | [], t, _ => by
    rw [List.append_nil]
    exact .refl _
  | e :: l, t, h => by
    have hnew : e.1 ∉ t.entries.map Prod.fst := fun hmem =>
      (List.nodup_append.1 h).2.2 _ hmem _ List.mem_cons_self rfl
    have hinsert : (t.insert e.1 e.2).entries.Perm (e :: t.entries) := perm_insertInto hnew
    have hmiddle : (e :: t.entries ++ l).Perm (t.entries ++ e :: l) := List.perm_middle.symm
    have hnodup : ((t.insert e.1 e.2).entries.map Prod.fst ++ l.map Prod.fst).Nodup := by
      rw [← List.map_append]
      refine (((hinsert.append_right l).trans hmiddle).map Prod.fst).nodup_iff.2 ?_
      rwa [List.map_append]
    exact (perm_entries_insertAll hnodup).trans ((hinsert.append_right l).trans hmiddle)

theorem perm_entries_ofList (h : (l.map Prod.fst).Nodup) : (ofList l).entries.Perm l :=
  perm_entries_insertAll (by simpa [empty] using h)

theorem eq_of_perm {s t : Table α} (h : s.entries.Perm t.entries) : s = t := by
  have hentries : s.entries = t.entries :=
    h.eq_of_pairwise (fun _ _ _ _ hab hba => absurd (lt_trans hab hba) (lt_irrefl _)) s.ascending
      t.ascending
  cases s
  cases t
  congr

theorem ofList_congr (h : (l.map Prod.fst).Nodup) (hperm : l.Perm l') : ofList l = ofList l' :=
  eq_of_perm ((perm_entries_ofList h).trans (hperm.trans
    (perm_entries_ofList ((hperm.map Prod.fst).nodup_iff.1 h)).symm))

end Table

/-! ### Names, each once -/

theorem eraseDups_concat (names : List String) (name : String) : (names ++ [name]).eraseDups =
    if name ∈ names then names.eraseDups else names.eraseDups ++ [name] := by
  rw [List.eraseDups_append]
  split <;> simp_all [List.removeAll, List.eraseDups_cons]

/-- **Each name stands where it stood first.** -/
theorem pairwise_eraseDups (names : List String) :
    names.eraseDups.Pairwise fun a b => names.idxOf a < names.idxOf b := by
  induction names using List.reverseRecOn with
  | nil => exact .nil
  | append_singleton names name ih =>
    have hold : names.eraseDups.Pairwise fun a b =>
        (names ++ [name]).idxOf a < (names ++ [name]).idxOf b := by
      refine ih.imp_of_mem fun ha hb hlt => ?_
      rwa [List.idxOf_append_of_mem (List.mem_eraseDups.1 ha),
        List.idxOf_append_of_mem (List.mem_eraseDups.1 hb)]
    rw [eraseDups_concat]
    split
    · exact hold
    · rename_i hnew
      refine List.pairwise_append.2 ⟨hold, List.pairwise_singleton _ _, fun a ha b hb => ?_⟩
      have hmem := List.mem_eraseDups.1 ha
      rw [List.mem_singleton.1 hb, List.idxOf_append_of_mem hmem, List.idxOf_append_of_notMem hnew]
      exact Nat.lt_add_right _ (List.idxOf_lt_length_iff.2 hmem)

theorem nodup_eraseDups (names : List String) : names.eraseDups.Nodup :=
  (pairwise_eraseDups names).imp fun hlt heq => by
    rw [heq] at hlt
    exact lt_irrefl _ hlt

/-! ### Places of names -/

section Places

variable {α : Type} {R : String → String → Prop} {names pre block post : List String} {a b x : String}

/-- **The names between two of a block are in the block.** -/
theorem mem_of_idxOf_between (ha : a ∈ block) (hb : b ∈ block) (hnodup : (pre ++ block ++ post).Nodup)
    (hax : (pre ++ block ++ post).idxOf a ≤ (pre ++ block ++ post).idxOf x)
    (hxb : (pre ++ block ++ post).idxOf x ≤ (pre ++ block ++ post).idxOf b) : x ∈ block := by
  rw [List.append_assoc] at hnodup hax hxb
  have hdisjoint := (List.nodup_append'.1 hnodup).2.2
  have hplace : ∀ c ∈ block, (pre ++ (block ++ post)).idxOf c = block.idxOf c + pre.length := by
    intro c hc
    have hpre : c ∉ pre := fun h => hdisjoint h (List.mem_append_left post hc)
    rw [List.idxOf_append_of_notMem hpre, List.idxOf_append_of_mem hc, Nat.add_comm]
  rw [hplace a ha] at hax
  rw [hplace b hb] at hxb
  have hlt := List.idxOf_lt_length_iff.2 hb
  by_cases hpre : x ∈ pre
  · rw [List.idxOf_append_of_mem hpre] at hax
    have := List.idxOf_lt_length_iff.2 hpre
    omega
  · by_contra hblock
    rw [List.idxOf_append_of_notMem hpre, List.idxOf_append_of_notMem hblock] at hxb
    omega

theorem pairwise_idxOf (h : names.Nodup) : names.Pairwise fun a b => names.idxOf a < names.idxOf b := by
  rw [List.pairwise_iff_getElem]
  intro i j hi hj hij
  rwa [h.idxOf_getElem, h.idxOf_getElem]

theorem rel_of_idxOf_lt (h : names.Pairwise R) (hb : b ∈ names)
    (hlt : names.idxOf a < names.idxOf b) : R a b := by
  have hblt := List.idxOf_lt_length_iff.2 hb
  have hrel := List.pairwise_iff_getElem.1 h _ _ (hlt.trans hblt) hblt hlt
  rwa [List.getElem_idxOf, List.getElem_idxOf] at hrel

/-- **Names by the places where they come up**: what comes up first does so in an earlier item, or earlier
in the same one. -/
theorem findIdx_lt_or_of_idxOf_lt {f : α → List String} : ∀ {l : List α},
    (l.flatMap f).idxOf a < (l.flatMap f).idxOf b →
      l.findIdx (fun x => a ∈ f x) < l.findIdx (fun x => b ∈ f x) ∨
        l.findIdx (fun x => a ∈ f x) = l.findIdx (fun x => b ∈ f x) ∧
          ∃ x ∈ l, b ∈ f x ∧ (f x).idxOf a < (f x).idxOf b
  | [], h => absurd h (Nat.lt_irrefl _)
  | x :: l, h => by
    rw [List.flatMap_cons] at h
    by_cases ha : a ∈ f x
    · by_cases hb : b ∈ f x
      · rw [List.idxOf_append_of_mem ha, List.idxOf_append_of_mem hb] at h
        exact .inr ⟨by simp [List.findIdx_cons, ha, hb], x, List.mem_cons_self, hb, h⟩
      · exact .inl (by simp [List.findIdx_cons, ha, hb])
    · by_cases hb : b ∈ f x
      · rw [List.idxOf_append_of_notMem ha, List.idxOf_append_of_mem hb] at h
        have := List.idxOf_lt_length_iff.2 hb
        omega
      · rw [List.idxOf_append_of_notMem ha, List.idxOf_append_of_notMem hb, Nat.add_lt_add_iff_left] at h
        simp only [List.findIdx_cons, ha, hb, decide_false, cond_false, Nat.add_lt_add_iff_right,
          Nat.add_right_cancel_iff]
        rcases findIdx_lt_or_of_idxOf_lt h with hlt | ⟨heq, y, hy, hby, hlt⟩
        · exact .inl hlt
        · exact .inr ⟨heq, y, List.mem_cons_of_mem _ hy, hby, hlt⟩

/-- **Names by two measures, the first before the second**, are in the order of the second one exactly if the
first one never contradicts it. -/
theorem pairwise_place_iff {first place : String → ℕ}
    (hinj : ∀ a ∈ names, ∀ b ∈ names, place a = place b → a = b)
    (h : names.Pairwise fun a b => first a < first b ∨ first a = first b ∧ place a < place b) :
    names.Pairwise (fun a b => place a < place b) ↔
      ∀ a ∈ names, ∀ b ∈ names, place a < place b → first a ≤ first b := by
  constructor
  · intro hplace a ha b hb hlt
    rcases Nat.lt_trichotomy (names.idxOf a) (names.idxOf b) with hidx | hidx | hidx
    · rcases rel_of_idxOf_lt h hb hidx with hfirst | ⟨hfirst, -⟩
      · exact Nat.le_of_lt hfirst
      · exact Nat.le_of_eq hfirst
    · rw [(List.idxOf_inj ha).1 hidx] at hlt
      exact absurd hlt (Nat.lt_irrefl _)
    · exact absurd (rel_of_idxOf_lt hplace ha hidx) (Nat.lt_asymm hlt)
  · intro hfirst
    refine h.imp_of_mem fun {a b} ha hb hab => ?_
    rcases hab with hlt | ⟨-, hlt⟩
    · rcases Nat.lt_trichotomy (place a) (place b) with hplace | hplace | hplace
      · exact hplace
      · rw [hinj a ha b hb hplace] at hlt
        exact absurd hlt (Nat.lt_irrefl _)
      · exact absurd (hfirst b hb a ha hplace) (Nat.not_le_of_lt hlt)
    · exact hlt

end Places

end SparqlViews
