import Mathlib.Data.List.Basic
import Mathlib.Data.List.Nodup
import SparqlViews.Result.Tree

/-! # Result trees under change

What a tree answers after a term was added (`terms_addTerm`, `children_addTerm`) and after one of its
children was changed (`terms_withChild`, `child?_withChild`). Both keep a tree `Tidy`: no key twice,
no key without values, no term twice under a key, and one child for each identifier.

* `HasTermAt`: the terms at the end of a walk along keys and identifiers.
* `Leads`: the walks that end at a tree.
* `NodeAt`: the trees below a list of keys.
-/

namespace SparqlViews.ResultTree

/-- The values under a key, none if the key is not there. -/
def values (t : ResultTree) (key : String) : List ResultValue := (t.get? key).getD []

theorem terms_eq (t : ResultTree) (key : String) :
    t.terms key = (t.values key).filterMap ResultValue.asTerm? := rfl

theorem children_eq (t : ResultTree) (key : String) :
    t.children key = (t.values key).filterMap ResultValue.asTree? := rfl

/-! ### One key changed -/

@[simp] theorem values_alter (t : ResultTree) (key k : String) (f : List ResultValue → List ResultValue) :
    (t.alter key f).values k = if k = key then f (t.values key) else t.values k := by
  obtain ⟨id, suppressId, entries⟩ := t
  unfold values get? alter
  dsimp only
  induction entries with
  | nil => by_cases h : k = key <;> simp [alterInto, h, eq_comm]
  | cons e rest ih =>
    unfold alterInto
    by_cases he : e.1 = key
    · by_cases h : k = key
      · simp [he, h]
      · have : e.1 ≠ k := fun hk => h (hk.symm.trans he)
        simp [he, h, Ne.symm h]
    · by_cases hk : e.1 = k
      · have : k ≠ key := fun h => he (hk.trans h)
        simp [hk, this]
      · simpa [he, hk] using ih

@[simp] theorem keys_alter (t : ResultTree) (key : String) (f : List ResultValue → List ResultValue) :
    (t.alter key f).keys = if key ∈ t.keys then t.keys else t.keys ++ [key] := by
  obtain ⟨id, suppressId, entries⟩ := t
  unfold keys alter
  dsimp only
  induction entries with
  | nil => simp [alterInto]
  | cons e rest ih =>
    unfold alterInto
    by_cases he : e.1 = key
    · simp [he]
    · rw [if_neg he, List.map_cons, ih, List.map_cons]
      by_cases hm : key ∈ rest.map (·.1)
      · rw [if_pos hm, if_pos (List.mem_cons_of_mem _ hm)]
      · rw [if_neg hm, if_neg (by simp only [List.mem_cons, not_or]; exact ⟨Ne.symm he, hm⟩)]
        rfl

theorem mem_keys_alter {t : ResultTree} {key k : String}
    {f : List ResultValue → List ResultValue} :
    k ∈ (t.alter key f).keys ↔ k = key ∨ k ∈ t.keys := by
  rw [keys_alter]
  split
  · rename_i h
    exact ⟨.inr, fun h' => h'.elim (fun e => e ▸ h) fun hk => hk⟩
  · simp [or_comm]

theorem ne_nil_of_mem_alterInto {key : String} {f : List ResultValue → List ResultValue}
    (hf : ∀ vs, f vs ≠ []) {l : List (String × List ResultValue)} (hl : ∀ e ∈ l, e.2 ≠ []) :
    ∀ e ∈ alterInto key f l, e.2 ≠ [] := by
  induction l with
  | nil => simpa [alterInto] using hf []
  | cons d rest ih =>
    intro e he
    unfold alterInto at he
    split at he
    · rcases List.mem_cons.1 he with rfl | he
      · exact hf d.2
      · exact hl e (List.mem_cons_of_mem _ he)
    · rcases List.mem_cons.1 he with rfl | he
      · exact hl e List.mem_cons_self
      · exact ih (fun c hc => hl c (List.mem_cons_of_mem _ hc)) e he

/-! ### One child changed -/

/-- The trees with the first one of an identifier changed, or made and changed. -/
def alterTree (id : Option Term) (suppressId : Bool) (f : ResultTree → ResultTree) :
    List ResultTree → List ResultTree
  | [] => [f ⟨id, suppressId, []⟩]
  | c :: rest => if c.id = id then f c :: rest else c :: alterTree id suppressId f rest

section Child

variable {id : Option Term} {suppressId : Bool} {f : ResultTree → ResultTree}

@[simp] theorem asTree?_ofTree (t : ResultTree) : (ResultValue.ofTree t).asTree? = some t := rfl

theorem filterMap_asTree?_alterChild : ∀ vs : List ResultValue,
    (alterChild id suppressId f vs).filterMap ResultValue.asTree? =
      alterTree id suppressId f (vs.filterMap ResultValue.asTree?)
  | [] => rfl
  | .term t :: rest => filterMap_asTree?_alterChild rest
  | .tree otherId suppressed entries :: rest => by
    have ih := filterMap_asTree?_alterChild rest
    unfold alterChild
    rw [List.filterMap_cons_some (b := ⟨otherId, suppressed, entries⟩) (by rfl), alterTree]
    split
    · rw [List.filterMap_cons_some (asTree?_ofTree _)]
    · rw [List.filterMap_cons_some (b := ⟨otherId, suppressed, entries⟩) (by rfl), ih]

theorem filterMap_asTerm?_alterChild : ∀ vs : List ResultValue,
    (alterChild id suppressId f vs).filterMap ResultValue.asTerm? =
      vs.filterMap ResultValue.asTerm?
  | [] => rfl
  | .term t :: rest => by
    rw [alterChild, List.filterMap_cons, List.filterMap_cons, filterMap_asTerm?_alterChild rest]
  | .tree otherId suppressed entries :: rest => by
    unfold alterChild
    split
    · rfl
    · exact filterMap_asTerm?_alterChild rest

theorem alterChild_ne_nil (vs : List ResultValue) : alterChild id suppressId f vs ≠ [] := by
  fun_cases alterChild id suppressId f vs <;> simp

theorem find?_alterTree (hf : ∀ c, (f c).id = c.id) (i : Option Term) : ∀ l : List ResultTree,
    (alterTree id suppressId f l).find? (fun c => c.id = i) =
      if i = id then some (f ((l.find? fun c => c.id = id).getD ⟨id, suppressId, []⟩))
      else l.find? fun c => c.id = i
  | [] => by by_cases h : i = id <;> simp [alterTree, hf, h, eq_comm]
  | c :: rest => by
    have ih := find?_alterTree hf i rest
    unfold alterTree
    by_cases hc : c.id = id
    · by_cases h : i = id
      · simp [hc, h, hf]
      · simp [hc, h, hf, Ne.symm h]
    · by_cases hi : c.id = i
      · have : i ≠ id := fun h => hc (hi.trans h)
        simp [hi, this]
      · simpa [hc, hi] using ih

theorem map_id_alterTree (hf : ∀ c, (f c).id = c.id) : ∀ l : List ResultTree,
    (alterTree id suppressId f l).map ResultTree.id =
      if id ∈ l.map ResultTree.id then l.map ResultTree.id else l.map ResultTree.id ++ [id]
  | [] => by simp [alterTree, hf]
  | c :: rest => by
    have ih := map_id_alterTree hf rest
    unfold alterTree
    by_cases hc : c.id = id
    · simp [hc, hf]
    · rw [if_neg hc, List.map_cons, ih, List.map_cons]
      by_cases hm : id ∈ rest.map ResultTree.id
      · rw [if_pos hm, if_pos (List.mem_cons_of_mem _ hm)]
      · rw [if_neg hm, if_neg (by simp only [List.mem_cons, not_or]; exact ⟨Ne.symm hc, hm⟩)]
        rfl

theorem mem_alterTree {c : ResultTree} : ∀ {l : List ResultTree},
    c ∈ alterTree id suppressId f l →
      c ∈ l ∨ ∃ b, c = f b ∧ (b ∈ l ∨ b = ⟨id, suppressId, []⟩)
  | [], h => .inr ⟨_, List.mem_singleton.1 h, .inr rfl⟩
  | d :: rest, h => by
    unfold alterTree at h
    split at h
    · rcases List.mem_cons.1 h with rfl | h
      · exact .inr ⟨d, rfl, .inl List.mem_cons_self⟩
      · exact .inl (List.mem_cons_of_mem _ h)
    · rcases List.mem_cons.1 h with rfl | h
      · exact .inl List.mem_cons_self
      · rcases mem_alterTree h with h | ⟨b, hb, hmem⟩
        · exact .inl (List.mem_cons_of_mem _ h)
        · exact .inr ⟨b, hb, hmem.imp (List.mem_cons_of_mem _) fun e => e⟩

end Child

/-! ### What a tree answers -/

section Answers

variable {t : ResultTree} {key : String} {id : Option Term} {suppressId : Bool}
  {f : ResultTree → ResultTree}

@[simp] theorem terms_addTerm (t : ResultTree) (key : String) (term : Term) (k : String) :
    (t.addTerm key term).terms k =
      if k = key ∧ term ∉ t.terms key then t.terms key ++ [term] else t.terms k := by
  rw [terms_eq, addTerm, values_alter]
  by_cases hk : k = key
  · subst hk
    rw [if_pos rfl, ← terms_eq]
    by_cases h : term ∈ t.terms k
    · rw [if_pos (by simpa using h), if_neg (by simp [h]), terms_eq]
    · rw [if_neg (by simpa using h), if_pos ⟨rfl, h⟩, List.filterMap_append, ← terms_eq]
      rfl
  · rw [if_neg hk, if_neg (by simp [hk]), terms_eq]

@[simp] theorem children_addTerm (t : ResultTree) (key : String) (term : Term) (k : String) :
    (t.addTerm key term).children k = t.children k := by
  rw [children_eq, addTerm, values_alter]
  split
  · rename_i hk
    subst hk
    split
    · rfl
    · rw [List.filterMap_append, children_eq]
      exact List.append_nil _
  · rfl

@[simp] theorem terms_withChild (k : String) :
    (t.withChild key id suppressId f).terms k = t.terms k := by
  rw [terms_eq, withChild, values_alter]
  split
  · rename_i hk
    rw [filterMap_asTerm?_alterChild, hk]
    rfl
  · rfl

@[simp] theorem children_withChild (k : String) : (t.withChild key id suppressId f).children k =
    if k = key then alterTree id suppressId f (t.children key) else t.children k := by
  rw [children_eq, withChild, values_alter]
  split
  · exact filterMap_asTree?_alterChild _
  · rfl

/-- **The child that is changed, and all others.** -/
theorem child?_withChild (hf : ∀ c, (f c).id = c.id) (k : String) (i : Option Term) :
    (t.withChild key id suppressId f).child? k i =
      if k = key ∧ i = id then some (f ((t.child? key id).getD ⟨id, suppressId, []⟩))
      else t.child? k i := by
  unfold child?
  rw [children_withChild]
  by_cases hk : k = key
  · subst hk
    rw [if_pos rfl, find?_alterTree hf]
    simp
  · simp [hk]

end Answers

/-! ### Tidy trees -/

/-- **No repetition and no empty key** in the entries of a tree. -/
structure Tidy (t : ResultTree) : Prop where
  keys : t.keys.Nodup
  values : ∀ e ∈ t.entries, e.2 ≠ []
  terms : ∀ key, (t.terms key).Nodup
  children : ∀ key, ((t.children key).map ResultTree.id).Nodup

namespace Tidy

variable {t : ResultTree}

theorem empty (id : Option Term) (suppressId : Bool) : Tidy ⟨id, suppressId, []⟩ where
  keys := List.nodup_nil
  values := by simp
  terms _ := List.nodup_nil
  children _ := List.nodup_nil

theorem keys_alter (h : t.Tidy) (key : String) (f : List ResultValue → List ResultValue) :
    (t.alter key f).keys.Nodup := by
  rw [ResultTree.keys_alter]
  split
  · exact h.keys
  · rename_i hk
    exact List.nodup_append'.2 ⟨h.keys, List.nodup_singleton _, by simpa using hk⟩

theorem addTerm (h : t.Tidy) (key : String) (term : Term) : (t.addTerm key term).Tidy where
  keys := h.keys_alter key _
  values := by
    refine ne_nil_of_mem_alterInto (fun vs => ?_) h.values
    split
    · rename_i hc
      rintro rfl
      simp at hc
    · simp
  terms k := by
    rw [terms_addTerm]
    split
    · rename_i hk
      exact List.nodup_append'.2 ⟨h.terms key, List.nodup_singleton _, by simpa using hk.2⟩
    · exact h.terms k
  children k := by
    rw [children_addTerm]
    exact h.children k

theorem withChild (h : t.Tidy) (key : String) (id : Option Term) (suppressId : Bool)
    {f : ResultTree → ResultTree} (hf : ∀ c, (f c).id = c.id) :
    (t.withChild key id suppressId f).Tidy where
  keys := h.keys_alter key _
  values := ne_nil_of_mem_alterInto alterChild_ne_nil h.values
  terms k := by
    rw [terms_withChild]
    exact h.terms k
  children k := by
    rw [children_withChild]
    split
    · rw [map_id_alterTree hf]
      split
      · exact h.children key
      · rename_i hid
        exact List.nodup_append'.2 ⟨h.children key, List.nodup_singleton _, by simpa using hid⟩
    · exact h.children k

end Tidy

/-! ### Walks -/

/-- The tree at the end of a walk along keys and identifiers. -/
def at? (t : ResultTree) : List (String × Option Term) → Option ResultTree
  | [] => some t
  | step :: rest => (t.child? step.1 step.2).bind fun c => c.at? rest

/-- **A term under a key of the tree at the end of a walk.** -/
def HasTermAt (t : ResultTree) (steps : List (String × Option Term)) (key : String)
    (term : Term) : Prop := ∃ node, t.at? steps = some node ∧ term ∈ node.terms key

/-- **A tree below a list of keys.** -/
def NodeAt (t : ResultTree) : List String → ResultTree → Prop
  | [], node => node = t
  | key :: rest, node => ∃ c ∈ t.children key, c.NodeAt rest node

@[simp] theorem hasTermAt_nil {t : ResultTree} {key : String} {term : Term} :
    t.HasTermAt [] key term ↔ term ∈ t.terms key := by
  simp [HasTermAt, at?]

@[simp] theorem hasTermAt_cons {t : ResultTree} {step : String × Option Term}
    {rest : List (String × Option Term)} {key : String} {term : Term} :
    t.HasTermAt (step :: rest) key term ↔
      ∃ c, t.child? step.1 step.2 = some c ∧ c.HasTermAt rest key term := by
  simp only [HasTermAt, at?, Option.bind_eq_some_iff]
  constructor
  · rintro ⟨node, ⟨c, hc, hnode⟩, hterm⟩; exact ⟨c, hc, node, hnode, hterm⟩
  · rintro ⟨c, hc, node, hnode, hterm⟩; exact ⟨node, ⟨c, hc, hnode⟩, hterm⟩

theorem not_hasTermAt_of_entries_eq_nil {id : Option Term} {suppressId : Bool}
    (steps : List (String × Option Term)) (key : String) (term : Term) :
    ¬ (⟨id, suppressId, []⟩ : ResultTree).HasTermAt steps key term := by
  cases steps with
  | nil =>
    rw [hasTermAt_nil]
    exact List.not_mem_nil
  | cons step rest =>
    rw [hasTermAt_cons]
    rintro ⟨c, hc, -⟩
    cases hc

theorem hasTermAt_addTerm (t : ResultTree) (name : String) (value : Term)
    (steps : List (String × Option Term)) (key : String) (term : Term) :
    (t.addTerm name value).HasTermAt steps key term ↔
      t.HasTermAt steps key term ∨ (steps = [] ∧ key = name ∧ term = value) := by
  cases steps with
  | nil =>
    rw [hasTermAt_nil, hasTermAt_nil, terms_addTerm]
    by_cases hkey : key = name
    · subst hkey
      by_cases hmem : value ∈ t.terms key
      · rw [if_neg (by simp [hmem])]
        exact ⟨.inl, fun h => h.elim (fun h => h) fun h => h.2.2 ▸ hmem⟩
      · rw [if_pos ⟨rfl, hmem⟩, List.mem_append, List.mem_singleton]
        simp
    · rw [if_neg (by simp [hkey])]
      simp [hkey]
  | cons step rest =>
    simp [child?]

theorem hasTermAt_getD_child? {t : ResultTree} {name : String} {id : Option Term}
    {suppressId : Bool} {steps : List (String × Option Term)} {key : String} {term : Term} :
    ((t.child? name id).getD ⟨id, suppressId, []⟩).HasTermAt steps key term ↔
      ∃ c, t.child? name id = some c ∧ c.HasTermAt steps key term := by
  cases t.child? name id with
  | none => simp [not_hasTermAt_of_entries_eq_nil]
  | some c => simp

/-- **A change to a child adds to the tree what it adds to the child.** -/
theorem hasTermAt_withChild {f : ResultTree → ResultTree} {t : ResultTree} {name : String}
    {id : Option Term} {suppressId : Bool}
    {added : List (String × Option Term) → String → Term → Prop} (hf : ∀ c, (f c).id = c.id)
    (hadded : ∀ c steps key term,
      (f c).HasTermAt steps key term ↔ c.HasTermAt steps key term ∨ added steps key term)
    (steps : List (String × Option Term)) (key : String) (term : Term) :
    (t.withChild name id suppressId f).HasTermAt steps key term ↔
      t.HasTermAt steps key term ∨ ∃ rest, steps = (name, id) :: rest ∧ added rest key term := by
  cases steps with
  | nil => simp
  | cons step rest =>
    obtain ⟨k, i⟩ := step
    rw [hasTermAt_cons, hasTermAt_cons, child?_withChild hf]
    by_cases h : k = name ∧ i = id
    · obtain ⟨rfl, rfl⟩ := h
      rw [if_pos ⟨rfl, rfl⟩]
      simp [hadded, hasTermAt_getD_child?]
    · have hne : ∀ r, (k, i) :: rest ≠ (name, id) :: r := by
        rintro r hr
        obtain ⟨hstep, -⟩ := List.cons.inj hr
        exact h (Prod.mk.inj hstep)
      rw [if_neg h]
      simp [hne]

theorem hasTermAt_withChild_id {t : ResultTree} {name : String} {id : Option Term}
    {suppressId : Bool} {steps : List (String × Option Term)} {key : String} {term : Term} :
    (t.withChild name id suppressId fun c => c).HasTermAt steps key term ↔
      t.HasTermAt steps key term := by
  have hnone : ∀ (c : ResultTree) (steps : List (String × Option Term)) (key : String)
      (term : Term), c.HasTermAt steps key term ↔ c.HasTermAt steps key term ∨ False := by simp
  rw [hasTermAt_withChild (fun _ => rfl) hnone]
  simp

/-! ### Changes that change nothing -/

theorem alterInto_eq_self {key : String} {f : List ResultValue → List ResultValue}
    {e : String × List ResultValue} : ∀ {l : List (String × List ResultValue)},
    l.find? (fun e => e.1 = key) = some e → f e.2 = e.2 → alterInto key f l = l
  | d :: rest, h, hf => by
    unfold alterInto
    split
    · rename_i hd
      rw [List.find?_cons_of_pos (by simpa using hd)] at h
      cases h
      rw [hf]
    · rename_i hd
      rw [List.find?_cons_of_neg (by simpa using hd)] at h
      rw [alterInto_eq_self h hf]

theorem alterChild_eq_self {id : Option Term} {suppressId : Bool} {f : ResultTree → ResultTree}
    {c : ResultTree} (hf : f c = c) : ∀ {vs : List ResultValue},
    (vs.filterMap ResultValue.asTree?).find? (fun c => c.id = id) = some c →
      alterChild id suppressId f vs = vs
  | .term t :: rest, h => by
    rw [List.filterMap_cons_none (by rfl)] at h
    rw [alterChild, alterChild_eq_self hf h]
  | .tree otherId suppressed entries :: rest, h => by
    rw [List.filterMap_cons_some (b := ⟨otherId, suppressed, entries⟩) (by rfl)] at h
    unfold alterChild
    split
    · rename_i hid
      rw [List.find?_cons_of_pos (by simpa using hid)] at h
      cases h
      rw [hf]
      rfl
    · rename_i hid
      rw [List.find?_cons_of_neg (by simpa using hid)] at h
      rw [alterChild_eq_self hf h]

/-- **A child that is there, changed into itself**, leaves the tree as it is. -/
theorem withChild_eq_self {t c : ResultTree} {key : String} {id : Option Term} {suppressId : Bool}
    {f : ResultTree → ResultTree} (h : t.child? key id = some c) (hf : f c = c) :
    t.withChild key id suppressId f = t := by
  unfold child? children get? at h
  cases hfind : t.entries.find? fun e => e.1 = key with
  | none => simp [hfind] at h
  | some e =>
    rw [hfind] at h
    rw [withChild, alter, alterInto_eq_self hfind (alterChild_eq_self hf h)]

/-! ### Walks that lead somewhere -/

/-- The walk leads to a tree. -/
def Leads (t : ResultTree) (steps : List (String × Option Term)) : Prop := (t.at? steps).isSome

@[simp] theorem leads_nil (t : ResultTree) : t.Leads [] := rfl

@[simp] theorem leads_cons {t : ResultTree} {step : String × Option Term}
    {rest : List (String × Option Term)} :
    t.Leads (step :: rest) ↔ ∃ c, t.child? step.1 step.2 = some c ∧ c.Leads rest := by
  rw [Leads, at?]
  cases t.child? step.1 step.2 with
  | none => simp
  | some c => simp [Leads]

theorem Leads.addTerm {t : ResultTree} {steps : List (String × Option Term)} (h : t.Leads steps)
    (key : String) (term : Term) : (t.addTerm key term).Leads steps := by
  cases steps with
  | nil => simp
  | cons step rest =>
    rw [leads_cons] at h ⊢
    rwa [child?, children_addTerm]

theorem Leads.withChild {t : ResultTree} {steps : List (String × Option Term)} (h : t.Leads steps)
    {f : ResultTree → ResultTree} (hid : ∀ c, (f c).id = c.id)
    (hf : ∀ c rest, c.Leads rest → (f c).Leads rest) (key : String) (id : Option Term)
    (suppressId : Bool) : (t.withChild key id suppressId f).Leads steps := by
  cases steps with
  | nil => simp
  | cons step rest =>
    obtain ⟨c, hc, hrest⟩ := leads_cons.1 h
    rw [leads_cons, child?_withChild hid]
    split
    · rename_i hstep
      rw [← hstep.1, ← hstep.2, hc]
      exact ⟨_, rfl, hf c rest hrest⟩
    · exact ⟨c, hc, hrest⟩

end SparqlViews.ResultTree
