import SparqlViews.Proofs.Store.Dependencies

/-! # The views that a store keeps

A store keeps a resolved view with the versions of all names on the chain that it was made from. It is
used only while these are the versions of the names. A store is `Sound` if all that is kept and fresh
is what its name means by the registered maps alone (`Denotes`).

* `Made`: a resolved view is what its name means, with the versions along its chain.
* `Agrees`: two stores have the same maps, whatever they keep.
* `Sound.register`: a registration leaves a store sound, since its version is new, and what was made
  from the name that it replaces is no longer fresh.
* `Sound.keep`: so does a view that is kept, if it is made for its name.
-/

namespace SparqlViews

namespace ViewStore

variable {s t u : ViewStore} {name : String} {o : Option String} {l : List String}
  {source : ViewSource} {r : Registration} {c : Resolved}

/-! ### What a name means -/

/-- The projection of what its source means, or the error of the source. A path that is missing is a
fault of the projection. -/
def projectAnswer (name target : String) (paths : List Path) :
    Except ViewError View → Except ViewError View
  | .error e => .error e
  | .ok v =>
    match v.project paths with
    | .ok w => .ok w
    | .error (.pathNotFound path) =>
      .error (.malformed (.missingPath path) (some (.projection name target)))
    | .error e => .error e

/-- **What a name means by the registered maps alone**: the view that was registered, the meaning of
the name that is referred to, or the projection of it. -/
inductive Denotes (s : ViewStore) : String → Except ViewError View → Prop
  | missing {name : String} : s.map? name = none → Denotes s name (.error (.viewNotFound name))
  | tree {name : String} {version : ℕ} {v : View} :
    s.map? name = some (version, .tree v) → Denotes s name (.ok v)
  | reference {name target : String} {version : ℕ} {answer : Except ViewError View} :
    s.map? name = some (version, .reference target) → Denotes s target answer →
      Denotes s name answer
  | projection {name target : String} {version : ℕ} {paths : List Path}
      {answer : Except ViewError View} :
    s.map? name = some (version, .projection target paths) → Denotes s target answer →
      Denotes s name (projectAnswer name target paths answer)

theorem Denotes.unique {a b : Except ViewError View} (h : s.Denotes name a)
    (h' : s.Denotes name b) : a = b := by
  induction h generalizing b with
  | missing hm => cases h' <;> simp_all
  | tree hm => cases h' <;> simp_all
  | reference hm _ ih =>
    cases h' with
    | reference hm' h' =>
      cases hm.symm.trans hm'
      exact ih h'
    | _ => simp_all
  | projection hm _ ih =>
    cases h' with
    | projection hm' h' =>
      cases hm.symm.trans hm'
      rw [ih h']
    | _ => simp_all

theorem Denotes.congr {answer : Except ViewError View} (h : s.Denotes name answer)
    (hl : s.Chain (some name) l) (hmap : ∀ x ∈ l, s.map? x = t.map? x) : t.Denotes name answer := by
  induction h generalizing l with
  | missing hm =>
    cases hl with
    | cons hl => exact .missing ((hmap _ List.mem_cons_self).symm.trans hm)
  | tree hm =>
    cases hl with
    | cons hl => exact .tree ((hmap _ List.mem_cons_self).symm.trans hm)
  | reference hm _ ih =>
    cases hl with
    | cons hl =>
      rw [dependency?_eq, hm] at hl
      exact .reference ((hmap _ List.mem_cons_self).symm.trans hm)
        (ih hl fun x hx => hmap x (List.mem_cons_of_mem _ hx))
  | projection hm _ ih =>
    cases hl with
    | cons hl =>
      rw [dependency?_eq, hm] at hl
      exact .projection ((hmap _ List.mem_cons_self).symm.trans hm)
        (ih hl fun x hx => hmap x (List.mem_cons_of_mem _ hx))

theorem isFresh_iff : s.isFresh c = true ↔ ∀ d ∈ c.versions, s.version? d.1 = some d.2 := by
  simp [isFresh]

/-! ### Stores with the same maps -/

/-- **The same maps, and the same versions to come.** The views that are kept may differ. -/
structure Agrees (s t : ViewStore) : Prop where
  nextVersion : s.nextVersion = t.nextVersion
  map? : ∀ name, s.map? name = t.map? name

namespace Agrees

theorem refl (s : ViewStore) : s.Agrees s := ⟨rfl, fun _ => rfl⟩

theorem symm (h : s.Agrees t) : t.Agrees s := ⟨h.nextVersion.symm, fun x => (h.map? x).symm⟩

theorem trans (h : s.Agrees t) (h' : t.Agrees u) : s.Agrees u :=
  ⟨h.nextVersion.trans h'.nextVersion, fun x => (h.map? x).trans (h'.map? x)⟩

theorem version? (h : s.Agrees t) (name : String) : s.version? name = t.version? name := by
  rw [version?_eq, version?_eq, h.map?]

theorem names (h : s.Agrees t) : s.names = t.names := by
  refine Table.names_congr fun name => ?_
  have hname := congrArg Option.isSome (h.map? name)
  rw [ViewStore.map?, ViewStore.map?, Option.isSome_map, Option.isSome_map] at hname
  exact Bool.eq_iff_iff.1 hname

theorem isFresh (h : s.Agrees t) (c : Resolved) : s.isFresh c = t.isFresh c := by
  rw [Bool.eq_iff_iff, isFresh_iff, isFresh_iff]
  simp only [h.version?]

theorem chain (h : s.Agrees t) (hl : s.Chain o l) : t.Chain o l := hl.congr fun x _ => h.map? x

end Agrees

/-! ### What is kept -/

/-- **A resolved view is what its name means**, with the versions along the chain of the name. -/
structure Made (s : ViewStore) (name : String) (c : Resolved) : Prop where
  denotes : s.Denotes name (.ok c.view)
  chain : s.Chain (some name) (c.versions.map Prod.fst)

theorem Made.congr (h : s.Made name c)
    (hmap : ∀ x ∈ c.versions.map Prod.fst, s.map? x = t.map? x) : t.Made name c :=
  ⟨h.denotes.congr h.chain hmap, h.chain.congr hmap⟩

/-- The versions of a resolved view were given before. -/
def IsOld (s : ViewStore) (c : Resolved) : Prop := ∀ d ∈ c.versions, d.2 < s.nextVersion

/-- **All chains end, and what is kept and fresh is what its name means.** -/
structure Sound (s : ViewStore) : Prop where
  chains : ∀ name, ∃ l, s.Chain (some name) l
  versions : ∀ name r, s.get? name = some r → r.version < s.nextVersion
  old : ∀ name r c, s.get? name = some r → r.kept = some c → s.IsOld c
  made : ∀ name r c, s.get? name = some r → r.kept = some c → s.isFresh c = true → s.Made name c

theorem sound_empty (labels : Prefixes) (first : ℕ) :
    Sound { prefixes := labels, nextVersion := first } where
  chains name := ⟨[name], .cons .nil⟩
  versions name r h := by cases h
  old name r c h := by cases h
  made name r c h := by cases h

/-- A resolved view whose versions are fresh after a registration is not made from the new view. -/
theorem not_mem_of_isFresh_register {version : ℕ} (hreg : s.register name source = .ok (version, t))
    (hold : s.IsOld c) (hfresh : t.isFresh c = true) : name ∉ c.versions.map Prod.fst := by
  intro hname
  obtain ⟨d, hd, rfl⟩ := List.mem_map.1 hname
  have hversion := isFresh_iff.1 hfresh d hd
  rw [version?_eq, map?_of_register hreg, if_pos rfl] at hversion
  have hlt := hold d hd
  have heq : s.nextVersion = d.2 := Option.some.inj hversion
  omega

/-- **A registration leaves a store sound**: what is kept and made from the name is no longer fresh,
as no old version is the new one, and the rest is made as it was. -/
theorem Sound.register {version : ℕ} (hs : s.Sound)
    (hreg : s.register name source = .ok (version, t)) : t.Sound := by
  obtain ⟨-, -, hnext, hget⟩ := register_ok hreg
  -- for the name itself nothing is kept any more
  have hkept : ∀ x r c, t.get? x = some r → r.kept = some c → s.get? x = some r := by
    intro x r c hx hc
    rw [hget] at hx
    split at hx
    · rw [← Option.some.inj hx] at hc
      cases hc
    · exact hx
  constructor
  · exact exists_chain_register hs.chains hreg
  · intro x r hx
    rw [hget] at hx
    split at hx
    · rw [← Option.some.inj hx, hnext]
      exact Nat.lt_succ_self _
    · have := hs.versions x r hx
      omega
  · intro x r c hx hc d hd
    have := hs.old x r c (hkept x r c hx hc) hc d hd
    omega
  · intro x r c hx hc hfresh
    have hx' := hkept x r c hx hc
    have hname := not_mem_of_isFresh_register hreg (hs.old x r c hx' hc) hfresh
    have hmap : ∀ y ∈ c.versions.map Prod.fst, s.map? y = t.map? y := by
      intro y hy
      rw [map?_of_register hreg, if_neg]
      rintro rfl
      exact hname hy
    have hfresh' : s.isFresh c = true := by
      refine isFresh_iff.2 fun d hd => ?_
      rw [version?_eq, hmap d.1 (List.mem_map_of_mem hd), ← version?_eq]
      exact isFresh_iff.1 hfresh d hd
    exact (hs.made x r c hx' hc hfresh').congr hmap

@[simp] theorem get?_keep (s : ViewStore) (name : String) (r : Registration) (c : Resolved)
    (other : String) :
    (s.keep name r c).get? other =
      if name = other then some { r with kept := some c } else s.get? other :=
  Table.get?_insert _ _ _ _

theorem agrees_keep (hr : s.map? name = some (r.version, r.source)) (c : Resolved) :
    s.Agrees (s.keep name r c) := by
  refine ⟨rfl, fun other => ?_⟩
  unfold map?
  rw [get?_keep]
  split
  · rename_i h
    rw [← h]
    exact hr
  · rfl

/-- **What is made for a name may be kept.** -/
theorem Sound.keep (hs : s.Sound) (hr : s.map? name = some (r.version, r.source))
    (hmade : s.Made name c) (hold : s.IsOld c) : (s.keep name r c).Sound := by
  have hagrees := agrees_keep hr c
  constructor
  · intro x
    obtain ⟨l, hl⟩ := hs.chains x
    exact ⟨l, hagrees.chain hl⟩
  · intro x q hx
    rw [get?_keep] at hx
    split at hx
    · obtain ⟨q', hq', heq⟩ := Option.map_eq_some_iff.1 hr
      have := hs.versions name q' hq'
      rw [← Option.some.inj hx]
      rw [Prod.mk.injEq] at heq
      exact heq.1 ▸ this
    · exact hs.versions x q hx
  · intro x q d hx hd
    rw [get?_keep] at hx
    split at hx
    · rw [← Option.some.inj hx] at hd
      rw [← Option.some.inj hd]
      exact hold
    · exact hs.old x q d hx hd
  · intro x q d hx hd hfresh
    rw [get?_keep] at hx
    split at hx
    · rename_i hname
      rw [← Option.some.inj hx] at hd
      rw [← Option.some.inj hd, ← hname]
      exact hmade.congr fun y _ => hagrees.map? y
    · rw [← hagrees.isFresh] at hfresh
      exact (hs.made x q d hx hd hfresh).congr fun y _ => hagrees.map? y

end ViewStore

end SparqlViews
