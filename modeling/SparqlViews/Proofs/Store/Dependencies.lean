import Mathlib.Data.List.Sort
import Mathlib.Data.String.Basic
import SparqlViews.View.Store

/-! # Names that depend on names

Every name of a store depends on at most one other, so that from each name there is one chain of
dependencies, as long as it ends. All that a store says about a chain is read off the maps of its
names, whatever views are kept.

* `map?`: a named view as it was registered.
* `Chain`: a chain of dependencies up to its end; no name stands on it twice (`Chain.nodup`).
* `meets_iff`: the search for a name along a chain has steps enough.
* `exists_chain_register`: chains end in the store with a named view, if its own chain does not come
  back to it.
-/

namespace SparqlViews

/-! ### The names of a table -/

namespace Table

variable {α β : Type} {t : Table α} {u : Table β} {name : String}

theorem mem_names : name ∈ t.names ↔ (t.get? name).isSome := by
  simp [names, get?]

theorem names_congr (h : ∀ name, (t.get? name).isSome ↔ (u.get? name).isSome) :
    t.names = u.names := by
  have ht : t.names.Pairwise (· < ·) := List.pairwise_map.2 t.ascending
  have hu : u.names.Pairwise (· < ·) := List.pairwise_map.2 u.ascending
  refine ht.eq_of_mem_iff hu fun name => ?_
  rw [mem_names, mem_names]
  exact h name

end Table

namespace ViewStore

variable {s t : ViewStore} {name target : String} {o : Option String} {l : List String}
  {source : ViewSource} {n : ℕ}

/-! ### Maps -/

/-- **A named view as it was registered**: its version and its source. -/
def map? (s : ViewStore) (name : String) : Option (ℕ × ViewSource) :=
  (s.get? name).map fun r => (r.version, r.source)

theorem map?_of_get? {r : Registration} (hr : s.get? name = some r) :
    s.map? name = some (r.version, r.source) := by
  rw [map?, hr]
  rfl

theorem version?_eq (s : ViewStore) (name : String) : s.version? name = (s.map? name).map (·.1) := by
  simp [version?, map?, Function.comp_def]

theorem dependency?_eq (s : ViewStore) (name : String) :
    s.dependency? name = (s.map? name).bind fun m => m.2.dependency? := by
  cases h : s.get? name <;> simp [dependency?, map?, h]

theorem mem_names_iff : name ∈ s.names ↔ (s.map? name).isSome := by
  rw [names, Table.mem_names, map?, Option.isSome_map]
  rfl

theorem mem_names_of_dependency? (h : s.dependency? name = some target) : name ∈ s.names := by
  rw [mem_names_iff]
  rw [dependency?_eq] at h
  obtain ⟨m, hm, -⟩ := Option.bind_eq_some_iff.1 h
  simp [hm]

theorem exists_tree_of_dependency? (h : source.dependency? = none) : ∃ v, source = .tree v := by
  cases source with
  | tree v => exact ⟨v, rfl⟩
  | reference next => cases h
  | projection next paths => cases h

/-! ### Chains -/

/-- **A chain of dependencies**, up to a name that depends on none. -/
inductive Chain (s : ViewStore) : Option String → List String → Prop
  | nil : Chain s none []
  | cons {name : String} {l : List String} :
    Chain s (s.dependency? name) l → Chain s (some name) (name :: l)

theorem Chain.unique {l' : List String} (h : s.Chain o l) (h' : s.Chain o l') : l = l' := by
  induction h generalizing l' with
  | nil =>
    cases h'
    rfl
  | @cons name l hl ih =>
    cases h' with
    | cons hl' => rw [ih hl']

theorem Chain.exists_of_mem (h : s.Chain o l) (hname : name ∈ l) :
    ∃ l', s.Chain (some name) l' ∧ l'.length ≤ l.length := by
  induction h with
  | nil => cases hname
  | @cons first l hl ih =>
    rcases List.mem_cons.1 hname with rfl | hname
    · exact ⟨name :: l, .cons hl, le_rfl⟩
    · obtain ⟨l', hl', hle⟩ := ih hname
      exact ⟨l', hl', hle.trans (Nat.le_succ _)⟩

theorem Chain.not_mem (h : s.Chain (s.dependency? name) l) : name ∉ l := by
  intro hname
  obtain ⟨l', hl', hle⟩ := h.exists_of_mem hname
  rw [hl'.unique (.cons h), List.length_cons] at hle
  omega

/-- **No name stands on a chain twice.** -/
theorem Chain.nodup (h : s.Chain o l) : l.Nodup := by
  induction h with
  | nil => exact List.nodup_nil
  | cons hl ih => exact List.nodup_cons.2 ⟨hl.not_mem, ih⟩

theorem Chain.mem_names_of_mem_dropLast (h : s.Chain o l) : ∀ name ∈ l.dropLast, name ∈ s.names := by
  induction h with
  | nil => simp
  | @cons first l hl ih =>
    intro name hname
    cases hdep : s.dependency? first with
    | none =>
      rw [hdep] at hl
      cases hl
      cases hname
    | some next =>
      have hne : l ≠ [] := by
        rw [hdep] at hl
        rintro rfl
        cases hl
      rw [List.dropLast_cons_of_ne_nil hne] at hname
      rcases List.mem_cons.1 hname with rfl | hname
      · exact mem_names_of_dependency? hdep
      · exact ih name hname

/-- **A chain has at most one name beyond those of the store.** -/
theorem Chain.length_le (h : s.Chain o l) : l.length ≤ s.names.length + 1 := by
  have hnodup : l.dropLast.Nodup := h.nodup.sublist (List.dropLast_sublist l)
  have hle := (List.subperm_of_subset hnodup h.mem_names_of_mem_dropLast).length_le
  rw [List.length_dropLast] at hle
  omega

/-- **The search along a chain finds the names on it**, given as many steps as the chain has. -/
theorem Chain.meets_iff (h : s.Chain o l) (hn : l.length ≤ n) : s.meets name n o = true ↔ name ∈ l := by
  induction h generalizing n with
  | nil => simp [meets]
  | @cons first l hl ih =>
    rw [List.length_cons] at hn
    obtain ⟨n, rfl⟩ := Nat.exists_eq_add_one_of_ne_zero (show n ≠ 0 by omega)
    rw [meets, Bool.or_eq_true, decide_eq_true_eq, ih (by omega), List.mem_cons, eq_comm]

theorem Chain.congr (h : s.Chain o l) (hmap : ∀ name ∈ l, s.map? name = t.map? name) :
    t.Chain o l := by
  induction h with
  | nil => exact .nil
  | @cons first l hl ih =>
    have hdep : s.dependency? first = t.dependency? first := by
      rw [dependency?_eq, dependency?_eq, hmap first List.mem_cons_self]
    have ht := ih fun name hname => hmap name (List.mem_cons_of_mem _ hname)
    rw [hdep] at ht
    exact .cons ht

/-! ### Registration -/

theorem register_of_meets
    (h : s.meets name (s.names.length + 1) source.dependency? = true) :
    s.register name source = .error (.cyclicReference name) := by
  rw [register, if_pos h]

theorem exists_register_of_not_meets
    (h : ¬ s.meets name (s.names.length + 1) source.dependency? = true) :
    ∃ t, s.register name source = .ok (s.nextVersion, t) := by
  rw [register, if_neg h]
  exact ⟨_, rfl⟩

theorem register_ok {version : ℕ} (h : s.register name source = .ok (version, t)) :
    s.meets name (s.names.length + 1) source.dependency? = false ∧ version = s.nextVersion ∧
      t.nextVersion = s.nextVersion + 1 ∧
      (∀ other, t.get? other =
        if name = other then some ⟨s.nextVersion, source, none⟩ else s.get? other) := by
  unfold register at h
  split at h
  · cases h
  · rename_i hmeets
    cases h
    exact ⟨by simpa using hmeets, rfl, rfl, fun other => Table.get?_insert _ _ _ _⟩

theorem map?_of_register {version : ℕ} (h : s.register name source = .ok (version, t))
    (other : String) :
    t.map? other = if name = other then some (s.nextVersion, source) else s.map? other := by
  obtain ⟨-, -, -, hget⟩ := register_ok h
  rw [map?, hget]
  split
  · rfl
  · rfl

theorem Chain.register {version : ℕ} (h : s.Chain o l) (hname : name ∉ l)
    (hreg : s.register name source = .ok (version, t)) : t.Chain o l := by
  refine h.congr fun other hother => ?_
  rw [map?_of_register hreg, if_neg]
  rintro rfl
  exact hname hother

/-- **All chains end after a registration**, if they did before. -/
theorem exists_chain_register {version : ℕ} (h : ∀ name, ∃ l, s.Chain (some name) l)
    (hreg : s.register name source = .ok (version, t)) (other : String) :
    ∃ l, t.Chain (some other) l := by
  have hdep : ∀ x, name ≠ x → t.dependency? x = s.dependency? x := by
    intro x hx
    rw [dependency?_eq, dependency?_eq, map?_of_register hreg, if_neg hx]
  have hown : ∃ l, t.Chain (some name) l := by
    obtain ⟨hmeets, -⟩ := register_ok hreg
    have hsource : t.dependency? name = source.dependency? := by
      rw [dependency?_eq, map?_of_register hreg, if_pos rfl]
      rfl
    obtain ⟨l, hl⟩ : ∃ l, s.Chain source.dependency? l := by
      cases source.dependency? with
      | none => exact ⟨[], .nil⟩
      | some target => exact h target
    have hname : name ∉ l := by
      rw [← hl.meets_iff hl.length_le, hmeets]
      decide
    have hnew := hl.register hname hreg
    rw [← hsource] at hnew
    exact ⟨name :: l, .cons hnew⟩
  -- a chain of the old store is followed up to the name, and then the new one
  have hfollow : ∀ o l, s.Chain o l → ∃ l', t.Chain o l' := by
    intro o l hl
    induction hl with
    | nil => exact ⟨[], .nil⟩
    | @cons first l hl ih =>
      by_cases hfirst : name = first
      · exact hfirst ▸ hown
      · obtain ⟨l', hl'⟩ := ih
        rw [← hdep first hfirst] at hl'
        exact ⟨first :: l', .cons hl'⟩
  obtain ⟨l, hl⟩ := h other
  exact hfollow _ l hl

end ViewStore

end SparqlViews
