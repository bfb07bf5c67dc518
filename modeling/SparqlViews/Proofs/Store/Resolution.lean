import SparqlViews.Proofs.Store.Soundness

/-! # Resolution of names

A resolution goes along the chain of a name until a view is found that is kept and fresh, or the chain
ends. Either way it answers what the name means by the registered maps alone, and leaves a sound store
with the same maps (`resolution_resolveFrom`).

* `Operation`, `perform`: the operations on a store and their replies. Each leaves a store sound
  (`Sound.perform`), and stores with the same maps reply alike (`Agrees.perform`).
* `resolve_denotes`: after any operations a name resolves to what it means, and having resolved it
  changes no later reply.
-/

namespace SparqlViews

theorem View.project_error {v : View} {paths : List Path} {e : ViewError}
    (h : v.project paths = .error e) : ∃ path, e = .pathNotFound path := by
  unfold View.project at h
  split at h
  · cases h
    exact ⟨_, rfl⟩
  · cases h

namespace ViewStore

variable {s t : ViewStore} {name target : String} {o : Option String} {l : List String}
  {visiting : List String} {source : ViewSource} {r : Registration} {c : Resolved}

/-! ### One step -/

theorem resolveFrom_eq (hv : name ∉ visiting) :
    s.resolveFrom visiting name =
      match s.get? name with
      | none => (.error (.viewNotFound name), s)
      | some r =>
        match r.kept.filter s.isFresh with
        | some c => (.ok c, s)
        | none =>
          match r.source with
          | .tree v => (.ok ⟨v, [(name, r.version)]⟩, s.keep name r ⟨v, [(name, r.version)]⟩)
          | .reference target | .projection target _ =>
            match s.resolveFrom (name :: visiting) target with
            | (.error e, t) => (.error e, t)
            | (.ok inner, t) =>
              match combine name r.version r.source inner with
              | .error e => (.error e, t)
              | .ok c => (.ok c, t.keep name r c) := by
  rw [resolveFrom, dif_neg hv]
  split
  · rename_i hr
    exact hr ▸ rfl
  · rename_i r hr
    exact hr ▸ rfl

theorem resolveFrom_dependent (hv : name ∉ visiting) (hr : s.get? name = some r)
    (hk : r.kept.filter s.isFresh = none) (htarget : r.source.dependency? = some target) :
    s.resolveFrom visiting name =
      match s.resolveFrom (name :: visiting) target with
      | (.error e, t) => (.error e, t)
      | (.ok inner, t) =>
        match combine name r.version r.source inner with
        | .error e => (.error e, t)
        | .ok c => (.ok c, t.keep name r c) := by
  rw [resolveFrom_eq hv, hr]
  dsimp only
  rw [hk]
  cases hsource : r.source with
  | tree v =>
    rw [hsource] at htarget
    cases htarget
  | reference next =>
    rw [hsource] at htarget
    cases htarget
    rfl
  | projection next paths =>
    rw [hsource] at htarget
    cases htarget
    rfl

theorem denotes_combine {version : ℕ} {inner : Resolved} (hm : s.map? name = some (version, source))
    (htarget : source.dependency? = some target) (hinner : s.Denotes target (.ok inner.view)) :
    s.Denotes name ((combine name version source inner).map Resolved.view) := by
  cases source with
  | tree v => cases htarget
  | reference next =>
    cases htarget
    exact .reference hm hinner
  | projection next paths =>
    cases htarget
    have hproject := Denotes.projection hm hinner
    unfold projectAnswer at hproject
    unfold combine
    dsimp only at hproject ⊢
    cases hp : inner.view.project paths with
    | ok w =>
      rw [hp] at hproject
      exact hproject
    | error e =>
      obtain ⟨path, rfl⟩ := View.project_error hp
      rw [hp] at hproject
      exact hproject

theorem versions_combine {version : ℕ} {inner : Resolved}
    (h : combine name version source inner = .ok c) :
    c.versions = (name, version) :: inner.versions := by
  unfold combine at h
  dsimp only at h
  split at h
  · split at h <;> cases h
    rfl
  · cases h
    rfl

theorem denotes_error {version : ℕ} {e : ViewError} (hm : s.map? name = some (version, source))
    (htarget : source.dependency? = some target) (hinner : s.Denotes target (.error e)) :
    s.Denotes name (.error e) := by
  cases source with
  | tree v => cases htarget
  | reference next =>
    cases htarget
    exact .reference hm hinner
  | projection next paths =>
    cases htarget
    exact .projection hm hinner

/-! ### What a step gives -/

/-- What a resolution gives: an answer that is what the name means, from a store that says what it
said before. -/
structure Resolution (s : ViewStore) (name : String) (answer : Except ViewError Resolved)
    (t : ViewStore) : Prop where
  sound : t.Sound
  agrees : s.Agrees t
  denotes : s.Denotes name (answer.map Resolved.view)
  made : ∀ c, answer = .ok c → s.Made name c ∧ s.IsOld c

theorem resolution_missing (hs : s.Sound) (hr : s.get? name = none) :
    s.Resolution name (.error (.viewNotFound name)) s := by
  have hm : s.map? name = none := by rw [map?, hr]; rfl
  exact ⟨hs, .refl s, .missing hm, fun c hc => by cases hc⟩

theorem resolution_kept (hs : s.Sound) (hr : s.get? name = some r)
    (hk : r.kept.filter s.isFresh = some c) : s.Resolution name (.ok c) s := by
  obtain ⟨hkept, hfresh⟩ := Option.filter_eq_some_iff.1 hk
  have hmade := hs.made name r c hr hkept hfresh
  refine ⟨hs, .refl s, hmade.denotes, fun d hd => ?_⟩
  cases hd
  exact ⟨hmade, hs.old name r c hr hkept⟩

theorem resolution_tree {v : View} (hs : s.Sound) (hr : s.get? name = some r)
    (hsource : r.source = .tree v) :
    s.Resolution name (.ok ⟨v, [(name, r.version)]⟩) (s.keep name r ⟨v, [(name, r.version)]⟩) := by
  have hm := map?_of_get? hr
  have hmade : s.Made name ⟨v, [(name, r.version)]⟩ := by
    refine ⟨.tree (hsource ▸ hm), .cons ?_⟩
    rw [dependency?_eq, hm, hsource]
    exact .nil
  have hold : s.IsOld ⟨v, [(name, r.version)]⟩ := by
    intro d hd
    rw [List.mem_singleton.1 hd]
    exact hs.versions name r hr
  refine ⟨hs.keep hm hmade hold, agrees_keep hm _, hmade.denotes, fun c hc => ?_⟩
  cases hc
  exact ⟨hmade, hold⟩

theorem made_combine {inner : Resolved} (hs : s.Sound) (hr : s.get? name = some r)
    (htarget : r.source.dependency? = some target) (hmade : s.Made target inner)
    (hold : s.IsOld inner) (hc : combine name r.version r.source inner = .ok c) :
    s.Made name c ∧ s.IsOld c := by
  have hm := map?_of_get? hr
  have hversions := versions_combine hc
  have hdenotes := denotes_combine hm htarget hmade.denotes
  rw [hc] at hdenotes
  refine ⟨⟨hdenotes, ?_⟩, fun d hd => ?_⟩
  · rw [hversions, List.map_cons]
    refine .cons ?_
    rw [dependency?_eq, hm, Option.bind_some, htarget]
    exact hmade.chain
  · rw [hversions] at hd
    rcases List.mem_cons.1 hd with rfl | hd
    · exact hs.versions name r hr
    · exact hold d hd

theorem resolution_combine {inner : Resolved} (hs : s.Sound) (hr : s.get? name = some r)
    (htarget : r.source.dependency? = some target) (hinner : s.Resolution target (.ok inner) t)
    (hc : combine name r.version r.source inner = .ok c) :
    s.Resolution name (.ok c) (t.keep name r c) := by
  obtain ⟨hmadeInner, holdInner⟩ := hinner.made inner rfl
  obtain ⟨hmade, hold⟩ := made_combine hs hr htarget hmadeInner holdInner hc
  have hm : t.map? name = some (r.version, r.source) := by
    rw [← hinner.agrees.map?]
    exact map?_of_get? hr
  have hmade' : t.Made name c := hmade.congr fun x _ => hinner.agrees.map? x
  have hold' : t.IsOld c := by
    intro d hd
    rw [← hinner.agrees.nextVersion]
    exact hold d hd
  refine ⟨hinner.sound.keep hm hmade' hold', hinner.agrees.trans (agrees_keep hm c), hmade.denotes,
    fun d hd => ?_⟩
  cases hd
  exact ⟨hmade, hold⟩

/-- **A resolution answers what the name means**, and leaves a sound store with the same maps. The
induction is along the chain of the name, which does not come back to a name that is being resolved. -/
theorem resolution_resolveFrom (hs : s.Sound) (hl : s.Chain o l) :
    ∀ {name} (visiting : List String), o = some name → (∀ x ∈ visiting, x ∉ l) →
      s.Resolution name (s.resolveFrom visiting name).1 (s.resolveFrom visiting name).2 := by
  induction hl with
  | nil => intro name visiting h; cases h
  | @cons name l hl ih =>
    intro other visiting h hvisiting
    obtain rfl := Option.some.inj h
    have hv : name ∉ visiting := fun hname => hvisiting name hname List.mem_cons_self
    cases hr : s.get? name with
    | none =>
      rw [resolveFrom_eq hv, hr]
      exact resolution_missing hs hr
    | some r =>
      cases hk : r.kept.filter s.isFresh with
      | some c =>
        rw [resolveFrom_eq hv, hr]
        dsimp only
        rw [hk]
        exact resolution_kept hs hr hk
      | none =>
        cases htarget : r.source.dependency? with
        | none =>
          obtain ⟨v, hsource⟩ := exists_tree_of_dependency? htarget
          rw [resolveFrom_eq hv, hr]
          dsimp only
          rw [hk, hsource]
          exact resolution_tree hs hr hsource
        | some target =>
          have hdep : s.dependency? name = some target := by
            rw [dependency?_eq, map?_of_get? hr, Option.bind_some, htarget]
          have hrest : ∀ x ∈ name :: visiting, x ∉ l := by
            intro x hx
            rcases List.mem_cons.1 hx with rfl | hx
            · exact hl.not_mem
            · exact fun hxl => hvisiting x hx (List.mem_cons_of_mem _ hxl)
          have hinner := ih (name :: visiting) hdep hrest
          rw [resolveFrom_dependent hv hr hk htarget]
          rcases hres : s.resolveFrom (name :: visiting) target with ⟨answer, t⟩
          rw [hres] at hinner
          cases answer with
          | error e =>
            exact ⟨hinner.sound, hinner.agrees,
              denotes_error (map?_of_get? hr) htarget hinner.denotes, fun c hc => by cases hc⟩
          | ok inner =>
            dsimp only
            cases hc : combine name r.version r.source inner with
            | error e =>
              have hdenotes := denotes_combine (map?_of_get? hr) htarget hinner.denotes
              rw [hc] at hdenotes
              exact ⟨hinner.sound, hinner.agrees, hdenotes, fun c hc => by cases hc⟩
            | ok c => exact resolution_combine hs hr htarget hinner hc

theorem resolution_resolve (hs : s.Sound) (name : String) :
    (s.resolve name).2.Sound ∧ s.Agrees (s.resolve name).2 ∧
      s.Denotes name (s.resolve name).1 := by
  obtain ⟨l, hl⟩ := hs.chains name
  have h := resolution_resolveFrom hs hl [] rfl (by simp)
  exact ⟨h.sound, h.agrees, h.denotes⟩

/-! ### Operations on a store -/

/-- **An operation on a store**, or a registration in another one, which takes a version. -/
inductive Operation where
  | register (name : String) (source : ViewSource)
  | resolve (name : String)
  | version (name : String)
  | names
  | map (name : String)
  | elsewhere

/-- What an operation answers. -/
inductive Reply where
  | registered (answer : Except ViewError ℕ)
  | resolved (answer : Except ViewError View)
  | version (answer : Option ℕ)
  | names (answer : List String)
  | map (answer : Option (ℕ × ViewSource))
  | none

/-- **The reply to an operation**, with the store as it is afterwards. -/
def perform (s : ViewStore) : Operation → Reply × ViewStore
  | .register name source =>
    match s.register name source with
    | .ok (version, t) => (.registered (.ok version), t)
    | .error e => (.registered (.error e), s)
  | .resolve name => (.resolved (s.resolve name).1, (s.resolve name).2)
  | .version name => (.version (s.version? name), s)
  | .names => (.names s.names, s)
  | .map name => (.map (s.map? name), s)
  | .elsewhere => (.none, { s with nextVersion := s.nextVersion + 1 })

/-- The replies to operations one after another. -/
def replies (s : ViewStore) : List Operation → List Reply
  | [] => []
  | operation :: more => (s.perform operation).1 :: (s.perform operation).2.replies more

/-- The store after operations. -/
def after (s : ViewStore) (operations : List Operation) : ViewStore :=
  operations.foldl (fun s operation => (s.perform operation).2) s

theorem Sound.elsewhere (hs : s.Sound) : Sound { s with nextVersion := s.nextVersion + 1 } where
  chains name := by
    obtain ⟨l, hl⟩ := hs.chains name
    exact ⟨l, hl.congr fun _ _ => rfl⟩
  versions name r hr := Nat.lt_succ_of_lt (hs.versions name r hr)
  old name r c hr hc d hd := Nat.lt_succ_of_lt (hs.old name r c hr hc d hd)
  made name r c hr hc hfresh := (hs.made name r c hr hc hfresh).congr fun _ _ => rfl

/-- **Every operation leaves a store sound.** -/
theorem Sound.perform (hs : s.Sound) (operation : Operation) : (s.perform operation).2.Sound := by
  cases operation with
  | register name source =>
    unfold ViewStore.perform
    dsimp only
    cases hreg : s.register name source with
    | error e => exact hs
    | ok answer => exact hs.register hreg
  | resolve name => exact (resolution_resolve hs name).1
  | version name => exact hs
  | names => exact hs
  | map name => exact hs
  | elsewhere => exact hs.elsewhere

theorem Sound.after (hs : s.Sound) (operations : List Operation) : (s.after operations).Sound := by
  induction operations generalizing s with
  | nil => exact hs
  | cons operation more ih => exact ih (hs.perform operation)

/-! ### Stores that agree -/

theorem Agrees.resolve (hs : s.Sound) (ht : t.Sound) (h : s.Agrees t) (name : String) :
    (s.resolve name).1 = (t.resolve name).1 ∧ (s.resolve name).2.Agrees (t.resolve name).2 := by
  obtain ⟨-, hleft, hdenotes⟩ := resolution_resolve hs name
  obtain ⟨-, hright, hdenotes'⟩ := resolution_resolve ht name
  obtain ⟨l, hl⟩ := hs.chains name
  exact ⟨(hdenotes.congr hl fun x _ => h.map? x).unique hdenotes',
    hleft.symm.trans (h.trans hright)⟩

theorem Agrees.meets (hs : s.Sound) (h : s.Agrees t) (name : String) (o : Option String) :
    s.meets name (s.names.length + 1) o = t.meets name (t.names.length + 1) o := by
  obtain ⟨l, hl⟩ : ∃ l, s.Chain o l := by
    cases o with
    | none => exact ⟨[], .nil⟩
    | some target => exact hs.chains target
  have hl' := h.chain hl
  rw [Bool.eq_iff_iff, hl.meets_iff hl.length_le, hl'.meets_iff hl'.length_le]

theorem Agrees.register (hs : s.Sound) (h : s.Agrees t) (name : String) (source : ViewSource) :
    (∃ e, s.register name source = .error e ∧ t.register name source = .error e) ∨
      ∃ version s' t', s.register name source = .ok (version, s') ∧
        t.register name source = .ok (version, t') ∧ s'.Agrees t' := by
  have hmeets := h.meets hs name source.dependency?
  by_cases hc : s.meets name (s.names.length + 1) source.dependency? = true
  · exact .inl ⟨.cyclicReference name, register_of_meets hc, register_of_meets (hmeets ▸ hc)⟩
  · obtain ⟨s', hs'⟩ := exists_register_of_not_meets hc
    obtain ⟨t', ht'⟩ := exists_register_of_not_meets (hmeets ▸ hc)
    rw [← h.nextVersion] at ht'
    refine .inr ⟨s.nextVersion, s', t', hs', ht', ?_, fun x => ?_⟩
    · obtain ⟨-, -, hnext, -⟩ := register_ok hs'
      obtain ⟨-, -, hnext', -⟩ := register_ok ht'
      rw [hnext, hnext', h.nextVersion]
    · rw [map?_of_register hs', map?_of_register ht', h.nextVersion, h.map?]

/-- **Stores that agree reply alike**, and agree afterwards. -/
theorem Agrees.perform (hs : s.Sound) (ht : t.Sound) (h : s.Agrees t) (operation : Operation) :
    (s.perform operation).1 = (t.perform operation).1 ∧
      (s.perform operation).2.Agrees (t.perform operation).2 := by
  cases operation with
  | register name source =>
    unfold ViewStore.perform
    dsimp only
    rcases h.register hs name source with ⟨e, hs', ht'⟩ | ⟨version, s', t', hs', ht', h'⟩
    · rw [hs', ht']
      exact ⟨rfl, h⟩
    · rw [hs', ht']
      exact ⟨rfl, h'⟩
  | resolve name =>
    obtain ⟨hanswer, hafter⟩ := h.resolve hs ht name
    exact ⟨congrArg Reply.resolved hanswer, hafter⟩
  | version name => exact ⟨congrArg Reply.version (h.version? name), h⟩
  | names => exact ⟨congrArg Reply.names h.names, h⟩
  | map name => exact ⟨congrArg Reply.map (h.map? name), h⟩
  | elsewhere => exact ⟨rfl, congrArg (· + 1) h.nextVersion, h.map?⟩

theorem replies_congr (hs : s.Sound) (ht : t.Sound) (h : s.Agrees t) (operations : List Operation) :
    s.replies operations = t.replies operations := by
  induction operations generalizing s t with
  | nil => rfl
  | cons operation more ih =>
    obtain ⟨hreply, hafter⟩ := h.perform hs ht operation
    rw [replies, replies, hreply, ih (hs.perform operation) (ht.perform operation) hafter]

/-- **The views that are kept do not show**: after any operations, a name resolves to what it means by
the registered maps alone, and having resolved it changes no later reply. -/
theorem resolve_denotes (labels : Prefixes) (first : ℕ) (operations : List Operation)
    (name : String) :
    let s := after { prefixes := labels, nextVersion := first } operations
    (∀ answer, s.Denotes name answer ↔ (s.resolve name).1 = answer) ∧
      ∀ later, (s.resolve name).2.replies later = s.replies later := by
  intro s
  have hs : s.Sound := (sound_empty labels first).after operations
  obtain ⟨hsound, hagrees, hdenotes⟩ := resolution_resolve hs name
  refine ⟨fun answer => ⟨fun h => hdenotes.unique h, ?_⟩, fun later => ?_⟩
  · rintro rfl
    exact hdenotes
  · exact replies_congr hsound hs hagrees.symm later

end ViewStore

end SparqlViews
