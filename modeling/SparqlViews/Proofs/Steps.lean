import Mathlib.Data.List.Basic

/-! # Runs of steps that may fail

A run over a list stops at its first error. What every step keeps, the run keeps
(`foldlM_induction`); a run fails only where one of its steps does (`foldlM_error`, `mapM_error`); and
it gives a result if each step does (`exists_foldlM`, `exists_mapM`).
-/

namespace SparqlViews.Steps

variable {ε α β σ : Type}

@[simp] theorem bind_eq_ok {x : Except ε α} {f : α → Except ε β} {b : β} :
    (x >>= f) = .ok b ↔ ∃ a, x = .ok a ∧ f a = .ok b := by
  cases x <;> simp [bind, Except.bind]

@[simp] theorem bind_eq_error {x : Except ε α} {f : α → Except ε β} {e : ε} :
    (x >>= f) = .error e ↔ x = .error e ∨ ∃ a, x = .ok a ∧ f a = .error e := by
  cases x <;> simp [bind, Except.bind]

@[simp] theorem mapError_eq_ok {ε' : Type} {x : Except ε α} {f : ε → ε'} {a : α} :
    x.mapError f = .ok a ↔ x = .ok a := by
  cases x <;> simp [Except.mapError]

@[simp] theorem mapError_eq_error {ε' : Type} {x : Except ε α} {f : ε → ε'} {e : ε'} :
    x.mapError f = .error e ↔ ∃ d, x = .error d ∧ f d = e := by
  cases x <;> simp [Except.mapError]

@[simp] theorem map_eq_ok {x : Except ε α} {f : α → β} {b : β} :
    x.map f = .ok b ↔ ∃ a, x = .ok a ∧ f a = b := by
  cases x <;> simp [Except.map]

@[simp] theorem map_eq_error {x : Except ε α} {f : α → β} {e : ε} :
    x.map f = .error e ↔ x = .error e := by
  cases x <;> simp [Except.map]

@[simp] theorem toOption_eq_some {x : Except ε α} {a : α} : x.toOption = some a ↔ x = .ok a := by
  cases x <;> simp [Except.toOption]

section Fold

variable {f : σ → α → Except ε σ} {l : List α} {s t : σ}

@[simp] theorem foldlM_cons_eq_ok {a : α} :
    (a :: l).foldlM f s = .ok t ↔ ∃ u, f s a = .ok u ∧ l.foldlM f u = .ok t := by
  rw [List.foldlM_cons, bind_eq_ok]

/-- **What each step keeps, the run keeps.** The property may speak of the part of the list that is
done. -/
theorem foldlM_induction {P : List α → σ → Prop} (start : P [] s)
    (step : ∀ done a s t, a ∈ l → P done s → f s a = .ok t → P (done ++ [a]) t)
    (h : l.foldlM f s = .ok t) : P l t := by
  suffices hrun : ∀ (rest done : List α) (s : σ), (∀ a ∈ rest, a ∈ l) → P done s →
      rest.foldlM f s = .ok t → P (done ++ rest) t by
    exact hrun l [] s (fun _ ha => ha) start h
  intro rest
  induction rest with
  | nil =>
    intro done s _ hs ht
    cases ht
    rwa [List.append_nil]
  | cons a rest ih =>
    intro done s hrest hs ht
    obtain ⟨u, hu, ht⟩ := foldlM_cons_eq_ok.1 ht
    have hnext := step done a s u (hrest a List.mem_cons_self) hs hu
    have := ih (done ++ [a]) u (fun b hb => hrest b (List.mem_cons_of_mem _ hb)) hnext ht
    rwa [List.append_assoc] at this

theorem exists_foldlM (h : ∀ s, ∀ a ∈ l, ∃ t, f s a = .ok t) (s : σ) :
    ∃ t, l.foldlM f s = .ok t := by
  induction l generalizing s with
  | nil => exact ⟨s, rfl⟩
  | cons a l ih =>
    obtain ⟨u, hu⟩ := h s a List.mem_cons_self
    obtain ⟨t, ht⟩ := ih (fun s b hb => h s b (List.mem_cons_of_mem _ hb)) u
    exact ⟨t, foldlM_cons_eq_ok.2 ⟨u, hu, ht⟩⟩

/-- **A run whose state is made of what its steps add**: it gives a result exactly if each item adds
something, and then the state is made of all that, in order. -/
theorem foldlM_eq_ok_iff {R : α → β → Prop} {put : List β → σ} (step : ∀ bs, ∀ a ∈ l, ∀ t,
    f (put bs) a = .ok t ↔ ∃ b, R a b ∧ t = put (bs ++ [b])) (bs : List β) :
    l.foldlM f (put bs) = .ok t ↔ ∃ more, List.Forall₂ R l more ∧ t = put (bs ++ more) := by
  induction l generalizing bs with
  | nil =>
    constructor
    · intro h
      exact ⟨[], .nil, by rw [List.append_nil, ← Except.ok.inj h]⟩
    · rintro ⟨_, ⟨⟩, rfl⟩
      rw [List.append_nil]
      rfl
  | cons a l ih =>
    have hrest := ih fun bs b hb => step bs b (List.mem_cons_of_mem _ hb)
    rw [foldlM_cons_eq_ok]
    constructor
    · rintro ⟨u, hu, ht⟩
      obtain ⟨b, hb, rfl⟩ := (step bs a List.mem_cons_self u).1 hu
      obtain ⟨more, hmore, rfl⟩ := (hrest (bs ++ [b])).1 ht
      exact ⟨b :: more, .cons hb hmore, by rw [List.append_assoc]; rfl⟩
    · rintro ⟨added, hadded, rfl⟩
      cases hadded with | @cons _ b _ more hb hmore =>
      refine ⟨put (bs ++ [b]), (step bs a List.mem_cons_self _).2 ⟨b, hb, rfl⟩, ?_⟩
      exact (hrest (bs ++ [b])).2 ⟨more, hmore, by rw [List.append_assoc]; rfl⟩

theorem foldlM_error {e : ε} (h : l.foldlM f s = .error e) : ∃ u, ∃ a ∈ l, f u a = .error e := by
  induction l generalizing s with
  | nil => cases h
  | cons a l ih =>
    rw [List.foldlM_cons, bind_eq_error] at h
    rcases h with h | ⟨u, -, h⟩
    · exact ⟨s, a, List.mem_cons_self, h⟩
    · obtain ⟨u, b, hb, hu⟩ := ih h
      exact ⟨u, b, List.mem_cons_of_mem _ hb, hu⟩

end Fold

section Map

variable {f : α → Except ε β} {l : List α}

@[simp] theorem mapM_cons_eq_ok {a : α} {bs : List β} :
    (a :: l).mapM f = .ok bs ↔ ∃ b more, f a = .ok b ∧ l.mapM f = .ok more ∧ bs = b :: more := by
  rw [List.mapM_cons, bind_eq_ok]
  refine exists_congr fun b => ?_
  rw [bind_eq_ok, ← exists_and_left]
  refine exists_congr fun more => and_congr_right fun _ => and_congr_right fun _ => ?_
  simp [pure, Except.pure, eq_comm]

theorem exists_mapM (h : ∀ a ∈ l, ∃ b, f a = .ok b) : ∃ bs, l.mapM f = .ok bs := by
  induction l with
  | nil => exact ⟨[], rfl⟩
  | cons a l ih =>
    obtain ⟨b, hb⟩ := h a List.mem_cons_self
    obtain ⟨bs, hbs⟩ := ih fun a ha => h a (List.mem_cons_of_mem _ ha)
    exact ⟨b :: bs, mapM_cons_eq_ok.2 ⟨b, bs, hb, hbs, rfl⟩⟩

theorem mem_of_mapM {bs : List β} {b : β} (h : l.mapM f = .ok bs) (hb : b ∈ bs) :
    ∃ a ∈ l, f a = .ok b := by
  induction l generalizing bs with
  | nil =>
    cases h
    cases hb
  | cons a l ih =>
    obtain ⟨c, more, hc, hmore, rfl⟩ := mapM_cons_eq_ok.1 h
    rcases List.mem_cons.1 hb with rfl | hb
    · exact ⟨a, List.mem_cons_self, hc⟩
    · obtain ⟨d, hd, hfd⟩ := ih hmore hb
      exact ⟨d, List.mem_cons_of_mem _ hd, hfd⟩

theorem exists_mem_of_mapM {bs : List β} {a : α} (h : l.mapM f = .ok bs) (ha : a ∈ l) :
    ∃ b ∈ bs, f a = .ok b := by
  induction l generalizing bs with
  | nil => cases ha
  | cons c l ih =>
    obtain ⟨b, more, hb, hmore, rfl⟩ := mapM_cons_eq_ok.1 h
    rcases List.mem_cons.1 ha with rfl | ha
    · exact ⟨b, List.mem_cons_self, hb⟩
    · obtain ⟨d, hd, hfd⟩ := ih hmore ha
      exact ⟨d, List.mem_cons_of_mem _ hd, hfd⟩

/-- **A run over a list gives the results of its items**, in their order. -/
theorem forall₂_of_mapM {bs : List β} (h : l.mapM f = .ok bs) :
    List.Forall₂ (fun a b => f a = .ok b) l bs := by
  induction l generalizing bs with
  | nil =>
    cases h
    exact .nil
  | cons a l ih =>
    obtain ⟨b, more, hb, hmore, rfl⟩ := mapM_cons_eq_ok.1 h
    exact .cons hb (ih hmore)

theorem mapM_eq_ok_iff {bs : List β} :
    l.mapM f = .ok bs ↔ List.Forall₂ (fun a b => f a = .ok b) l bs := by
  refine ⟨forall₂_of_mapM, fun h => ?_⟩
  induction h with
  | nil => rfl
  | cons hb _ ih => exact mapM_cons_eq_ok.2 ⟨_, _, hb, ih, rfl⟩

theorem mapM_error {e : ε} (h : l.mapM f = .error e) : ∃ a ∈ l, f a = .error e := by
  induction l with
  | nil => cases h
  | cons a l ih =>
    rw [List.mapM_cons, bind_eq_error] at h
    rcases h with h | ⟨b, -, h⟩
    · exact ⟨a, List.mem_cons_self, h⟩
    · rcases bind_eq_error.1 h with h | ⟨more, -, h⟩
      · obtain ⟨c, hc, hfc⟩ := ih h
        exact ⟨c, List.mem_cons_of_mem _ hc, hfc⟩
      · cases h

end Map

end SparqlViews.Steps

namespace SparqlViews

/-! ### Lists item by item -/

section Forall

variable {α β : Type} {R : α → β → Prop} {l : List α}

theorem exists_of_forall₂ {bs : List β} (h : List.Forall₂ R l bs) : ∀ a ∈ l, ∃ b, R a b := by
  induction h with
  | nil => simp
  | cons hb _ ih => exact List.forall_mem_cons.2 ⟨⟨_, hb⟩, ih⟩

theorem exists_forall₂ (h : ∀ a ∈ l, ∃ b, R a b) : ∃ bs, List.Forall₂ R l bs := by
  induction l with
  | nil => exact ⟨[], .nil⟩
  | cons a l ih =>
    obtain ⟨b, hb⟩ := h a List.mem_cons_self
    obtain ⟨bs, hbs⟩ := ih fun c hc => h c (List.mem_cons_of_mem _ hc)
    exact ⟨b :: bs, .cons hb hbs⟩

end Forall

end SparqlViews
