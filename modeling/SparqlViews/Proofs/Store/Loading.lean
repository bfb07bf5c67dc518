import SparqlViews.Proofs.Store.Resolution

/-! # Trees registered in a store

A store that is `Loaded` with trees has been given them one after another, with lookups in between.
Names without a tree mean what they meant before (`Loaded.resolve_other`); a name that was given one
tree resolves to it (`Loaded.resolve_tree`), while a second one would have taken its place.

* `Denotes.mono`: a view that a name means stays when a store gets further names.
-/

namespace SparqlViews.ViewStore

variable {base s t : ViewStore} {name : String} {source : ViewSource} {version : ℕ} {v : View}
  {own : List (String × View)}

/-! ### Labels -/

theorem prefixes_register (h : s.register name source = .ok (version, t)) :
    t.prefixes = s.prefixes := by
  unfold register at h
  split at h
  · cases h
  · cases h
    rfl

theorem prefixes_resolveFrom (s : ViewStore) (visiting : List String) (name : String) :
    (s.resolveFrom visiting name).2.prefixes = s.prefixes := by
  fun_induction resolveFrom s visiting name <;> simp_all [keep]

theorem prefixes_resolve (s : ViewStore) (name : String) : (s.resolve name).2.prefixes = s.prefixes :=
  prefixes_resolveFrom s [] name

/-! ### Further names -/

theorem projectAnswer_eq_ok {target : String} {paths : List Path} {answer : Except ViewError View}
    (h : projectAnswer name target paths answer = .ok v) : ∃ w, answer = .ok w := by
  cases answer with
  | ok w => exact ⟨w, rfl⟩
  | error e => cases h

/-- **A view that a name means stays** when the maps on its way do. -/
theorem Denotes.mono (h : s.Denotes name (.ok v))
    (hmap : ∀ x, (s.map? x).isSome → t.map? x = s.map? x) : t.Denotes name (.ok v) := by
  generalize hanswer : Except.ok v = answer at h
  induction h generalizing v with
  | missing => cases hanswer
  | tree hm => exact .tree ((hmap _ (by rw [hm]; rfl)).trans hm)
  | reference hm _ ih => exact .reference ((hmap _ (by rw [hm]; rfl)).trans hm) (hanswer ▸ ih hanswer)
  | projection hm _ ih =>
    obtain ⟨w, rfl⟩ := projectAnswer_eq_ok hanswer.symm
    exact .projection ((hmap _ (by rw [hm]; rfl)).trans hm) (ih rfl)

/-! ### Trees one after another -/

/-- **A store after trees were registered in it**, each under its name. Other names are as they were
in the store before; if the names are distinct, each has its tree. -/
structure Loaded (base : ViewStore) (own : List (String × View)) (s : ViewStore) : Prop where
  sound : s.Sound
  prefixes : s.prefixes = base.prefixes
  others : ∀ name, name ∉ own.map Prod.fst → s.map? name = base.map? name
  trees : (own.map Prod.fst).Nodup → ∀ d ∈ own, ∃ version, s.map? d.1 = some (version, .tree d.2)

namespace Loaded

theorem refl (hs : base.Sound) : Loaded base [] base where
  sound := hs
  prefixes := rfl
  others _ _ := rfl
  trees _ _ hd := nomatch hd

/-- **A further tree.** It takes no place of another one if its name is new. -/
theorem register (h : Loaded base own s) (hreg : s.register name (.tree v) = .ok (version, t)) :
    Loaded base (own ++ [(name, v)]) t where
  sound := h.sound.register hreg
  prefixes := (prefixes_register hreg).trans h.prefixes
  others other hother := by
    rw [List.map_append, List.mem_append, not_or] at hother
    have hne : name ≠ other := fun heq => hother.2 (heq ▸ List.mem_singleton_self name)
    rw [map?_of_register hreg, if_neg hne]
    exact h.others other hother.1
  trees hnodup d hd := by
    rw [List.map_append, List.nodup_append'] at hnodup
    obtain ⟨hbefore, -, hnew⟩ := hnodup
    rcases List.mem_append.1 hd with hd | hd
    · have hne : name ≠ d.1 := fun heq =>
        hnew (List.mem_map_of_mem hd) (heq ▸ List.mem_singleton_self name)
      rw [map?_of_register hreg, if_neg hne]
      exact h.trees hbefore d hd
    · rw [List.mem_singleton.1 hd]
      exact ⟨s.nextVersion, by rw [map?_of_register hreg, if_pos rfl]⟩

theorem resolve (h : Loaded base own s) (name : String) : Loaded base own (s.resolve name).2 := by
  obtain ⟨hsound, hagrees, -⟩ := resolution_resolve h.sound name
  refine ⟨hsound, (prefixes_resolve s name).trans h.prefixes, fun x hx => ?_, fun hnodup d hd => ?_⟩
  · rw [← hagrees.map?]
    exact h.others x hx
  · rw [← hagrees.map?]
    exact h.trees hnodup d hd

theorem lookups (h : Loaded base own s) (names : List String) :
    Loaded base own (s.after (names.map .resolve)) := by
  induction names generalizing s with
  | nil => exact h
  | cons name names ih => exact ih (h.resolve name)

/-- **A name that was given one tree resolves to it.** -/
theorem resolve_tree (h : Loaded base own s) (hnodup : (own.map Prod.fst).Nodup)
    (hmem : (name, v) ∈ own) : (s.resolve name).1 = .ok v := by
  obtain ⟨version, hmap⟩ := h.trees hnodup _ hmem
  exact (resolution_resolve h.sound name).2.2.unique (.tree hmap)

theorem resolve_other (hbase : base.Sound) (h : Loaded base own s)
    (hnew : ∀ x, (base.map? x).isSome → x ∉ own.map Prod.fst)
    (hok : (base.resolve name).1 = .ok v) : (s.resolve name).1 = .ok v := by
  have hdenotes := (resolution_resolve hbase name).2.2
  rw [hok] at hdenotes
  have hkept := hdenotes.mono fun x hx => h.others x (hnew x hx)
  exact (resolution_resolve h.sound name).2.2.unique hkept

end Loaded

end SparqlViews.ViewStore
