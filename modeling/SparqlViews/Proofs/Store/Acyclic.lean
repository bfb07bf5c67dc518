import Mathlib.Logic.Relation
import SparqlViews.Proofs.Store.Resolution

/-! # No name depends on itself

A registration follows the chain of what it depends on, without a bound, and is refused if it meets
its own name. That this walk ends rests on the chains of the store, and that these end rests on the
registrations that were refused.

* `DependsOn`: the graph of the dependencies. The names on a chain are those that are reached in it
  (`Chain.mem_iff`), so that where all chains end no name reaches itself (`Sound.acyclic`).
* `Walk`: the walk of a registration, as long as it takes. In a sound store it ends, and with the
  answer that the bounded search gives (`Sound.walk_iff`).
* `Sound.lt_of_registered`: versions that were given are below the one to come.
* `acyclic_after`: after any operations, what a registration and a resolution say about cycles.
-/

namespace SparqlViews

namespace ViewStore

variable {s t : ViewStore} {name target other : String} {o : Option String} {l : List String}
  {source : ViewSource}

/-! ### The graph of dependencies -/

/-- **A name depends on another one**: it is registered and refers to it, or is a projection of it.
The other name need not be registered. -/
def DependsOn (s : ViewStore) (name target : String) : Prop := s.dependency? name = some target

/-- A source depends on a name, by itself or by the registered views in between. -/
def Reaches (s : ViewStore) (source : ViewSource) (name : String) : Prop :=
  ∃ target, source.dependency? = some target ∧ Relation.ReflTransGen s.DependsOn target name

theorem Chain.mem_iff (h : s.Chain o l) (name : String) :
    name ∈ l ↔ ∃ first, o = some first ∧ Relation.ReflTransGen s.DependsOn first name := by
  induction h with
  | nil => simp
  | @cons first l hl ih =>
    constructor
    · intro hname
      refine ⟨first, rfl, ?_⟩
      rcases List.mem_cons.1 hname with rfl | hname
      · exact .refl
      · obtain ⟨next, hdep, hreach⟩ := ih.1 hname
        exact .head hdep hreach
    · rintro ⟨first', hfirst, hreach⟩
      obtain rfl := Option.some.inj hfirst
      rcases hreach.cases_head with rfl | ⟨next, hdep, hreach⟩
      · exact List.mem_cons_self
      · exact List.mem_cons_of_mem _ (ih.2 ⟨next, hdep, hreach⟩)

theorem Sound.exists_chain (hs : s.Sound) (o : Option String) : ∃ l, s.Chain o l := by
  cases o with
  | none => exact ⟨[], .nil⟩
  | some name => exact hs.chains name

theorem Sound.acyclic (hs : s.Sound) (name : String) : ¬ Relation.TransGen s.DependsOn name name := by
  intro hcycle
  obtain ⟨next, hdep, hreach⟩ := Relation.TransGen.head'_iff.1 hcycle
  obtain ⟨l, hl⟩ := hs.exists_chain (s.dependency? name)
  exact hl.not_mem ((hl.mem_iff name).2 ⟨next, hdep, hreach⟩)

/-! ### The walk of a registration -/

/-- **The walk along a chain in search of a name**, without a bound: it ends at the name, or where
the chain ends. -/
inductive Walk (s : ViewStore) (name : String) : Option String → Bool → Prop
  | ended : Walk s name none false
  | met : Walk s name (some name) true
  | on {current : String} {found : Bool} :
    current ≠ name → Walk s name (s.dependency? current) found → Walk s name (some current) found

theorem Walk.unique {found found' : Bool} (h : s.Walk name o found) (h' : s.Walk name o found') :
    found = found' := by
  induction h with
  | ended => cases h' with
    | ended => rfl
  | met => cases h' with
    | met => rfl
    | on hne _ => exact absurd rfl hne
  | on hne _ ih => cases h' with
    | met => exact absurd rfl hne
    | on _ h' => exact ih h'

theorem Chain.walk (h : s.Chain o l) (name : String) : s.Walk name o (decide (name ∈ l)) := by
  induction h with
  | nil => exact .ended
  | @cons first l hl ih =>
    by_cases hfirst : first = name
    · rw [hfirst, decide_eq_true List.mem_cons_self]
      exact .met
    · have hmem : decide (name ∈ first :: l) = decide (name ∈ l) := by
        simp [List.mem_cons, Ne.symm hfirst]
      rw [hmem]
      exact .on hfirst ih

/-- **The bounded search is the unbounded walk.** -/
theorem Sound.walk_iff (hs : s.Sound) (name : String) (o : Option String) (found : Bool) :
    s.Walk name o found ↔ s.meets name (s.names.length + 1) o = found := by
  obtain ⟨l, hl⟩ := hs.exists_chain o
  have hmeets : s.meets name (s.names.length + 1) o = decide (name ∈ l) := by
    rw [Bool.eq_iff_iff, hl.meets_iff hl.length_le, decide_eq_true_eq]
  rw [hmeets]
  constructor
  · exact fun h => (hl.walk name).unique h
  · rintro rfl
    exact hl.walk name

theorem Sound.meets_iff (hs : s.Sound) (name : String) (source : ViewSource) :
    s.meets name (s.names.length + 1) source.dependency? = true ↔ s.Reaches source name := by
  obtain ⟨l, hl⟩ := hs.exists_chain source.dependency?
  rw [hl.meets_iff hl.length_le, hl.mem_iff]
  rfl

/-! ### No resolution meets a cycle -/

/-- **What a name means is never a cycle**, by induction along its chain. -/
theorem Denotes.ne_cyclicReference {answer : Except ViewError View} (h : s.Denotes name answer)
    (x : String) : answer ≠ .error (.cyclicReference x) := by
  induction h with
  | missing hm => simp
  | tree hm => simp
  | reference hm _ ih => exact ih
  | @projection name target version paths answer hm _ ih =>
    cases answer with
    | error e => exact ih
    | ok v =>
      unfold projectAnswer
      dsimp only
      cases hp : v.project paths with
      | ok w => simp
      | error e =>
        obtain ⟨path, rfl⟩ := View.project_error hp
        simp

/-! ### Versions -/

/-- An operation takes versions from those to come, and a registration that is not refused takes the
next one. -/
theorem Sound.nextVersion_perform (hs : s.Sound) (operation : Operation) :
    s.nextVersion ≤ (s.perform operation).2.nextVersion ∧
      ∀ version, (s.perform operation).1 = .registered (.ok version) →
        version < (s.perform operation).2.nextVersion := by
  cases operation with
  | register name source =>
    unfold ViewStore.perform
    dsimp only
    cases hreg : s.register name source with
    | error e => exact ⟨le_rfl, fun version h => by simp at h⟩
    | ok answer =>
      obtain ⟨-, hversion, hnext, -⟩ := register_ok hreg
      refine ⟨by dsimp only; omega, fun version h => ?_⟩
      have hsame : answer.1 = version := by simpa using h
      dsimp only
      omega
  | resolve name =>
    obtain ⟨-, hagrees, -⟩ := resolution_resolve hs name
    exact ⟨hagrees.nextVersion.le, fun version h => by simp [ViewStore.perform] at h⟩
  | version name => exact ⟨le_rfl, fun version h => by simp [ViewStore.perform] at h⟩
  | names => exact ⟨le_rfl, fun version h => by simp [ViewStore.perform] at h⟩
  | map name => exact ⟨le_rfl, fun version h => by simp [ViewStore.perform] at h⟩
  | elsewhere => exact ⟨Nat.le_succ _, fun version h => by simp [ViewStore.perform] at h⟩

theorem Sound.nextVersion_after (hs : s.Sound) (operations : List Operation) :
    s.nextVersion ≤ (s.after operations).nextVersion := by
  induction operations generalizing s with
  | nil => exact le_rfl
  | cons operation more ih =>
    exact (hs.nextVersion_perform operation).1.trans (ih (hs.perform operation))

/-- **A version that was given is below the one to come**, by induction on the operations. -/
theorem Sound.lt_of_registered (hs : s.Sound) {operations : List Operation} {version : ℕ}
    (h : .registered (.ok version) ∈ s.replies operations) :
    version < (s.after operations).nextVersion := by
  induction operations generalizing s with
  | nil => cases h
  | cons operation more ih =>
    have hafter := hs.perform operation
    rcases List.mem_cons.1 h with hreply | hmore
    · have hlt := (hs.nextVersion_perform operation).2 version hreply.symm
      exact lt_of_lt_of_le hlt (hafter.nextVersion_after more)
    · exact ih hafter hmore

/-! ### All operations -/

/-- **Cycles never enter a store.** After any operations on a new store no name depends on itself;
the chain that a resolution goes along ends, and so does the walk of every registration, with the
answer of the bounded search; no name resolves to a cycle; and a registration is refused exactly if
its source reaches its own name. Refused, it leaves the store as it was, with the same version to
come; accepted, it has a version above all that were given before, and changes the map of its own
name only. -/
theorem acyclic_after (labels : Prefixes) (first : ℕ) (operations : List Operation) :
    let start : ViewStore := { prefixes := labels, nextVersion := first }
    let s := start.after operations
    (∀ name, ¬ Relation.TransGen s.DependsOn name name) ∧
      (∀ name, ∃ l, s.Chain (some name) l ∧ l.length ≤ s.names.length + 1) ∧
      (∀ name o found, s.Walk name o found ↔ s.meets name (s.names.length + 1) o = found) ∧
      (∀ name x, (s.resolve name).1 ≠ .error (.cyclicReference x)) ∧
      ∀ name source,
        (s.Reaches source name →
          s.perform (.register name source) =
            (.registered (.error (.cyclicReference name)), s)) ∧
        (¬ s.Reaches source name →
          ∃ version t, s.perform (.register name source) = (.registered (.ok version), t) ∧
            (∀ earlier, .registered (.ok earlier) ∈ start.replies operations →
              earlier < version) ∧
            ∀ other, t.map? other =
              if name = other then some (version, source) else s.map? other) := by
  intro start s
  have hstart : start.Sound := sound_empty labels first
  have hs : s.Sound := hstart.after operations
  refine ⟨hs.acyclic, fun name => ?_, hs.walk_iff, fun name x => ?_,
    fun name source => ⟨fun h => ?_, fun h => ?_⟩⟩
  · obtain ⟨l, hl⟩ := hs.chains name
    exact ⟨l, hl, hl.length_le⟩
  · obtain ⟨-, -, hdenotes⟩ := resolution_resolve hs name
    exact hdenotes.ne_cyclicReference x
  · have hreg := register_of_meets ((hs.meets_iff name source).2 h)
    unfold perform
    dsimp only
    rw [hreg]
  · obtain ⟨t, hreg⟩ := exists_register_of_not_meets (mt (hs.meets_iff name source).1 h)
    refine ⟨s.nextVersion, t, ?_, fun earlier hearlier => ?_, map?_of_register hreg⟩
    · unfold perform
      dsimp only
      rw [hreg]
    · exact hstart.lt_of_registered hearlier

end ViewStore

end SparqlViews
