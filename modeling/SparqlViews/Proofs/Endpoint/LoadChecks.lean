import SparqlViews.Proofs.Endpoint.OwnViews
import SparqlViews.Proofs.Endpoint.RequestOperations
import SparqlViews.Proofs.Query.Filling

/-! # What the checks of an endpoint leave open

An endpoint whose definition was accepted has been checked (`Endpoint.checked_of_ofDefinition`): each
of its views is found and keeps clear of the root, and its template has the markers that every request
fills. So a request that only chooses a view is answered unless it needs an inner select, and no request
at all misses one of these markers (`Endpoint.compile_of_checks`).

* `Endpoint.MadeOf`: what an endpoint has from its definition.
* `Endpoint.Usable`, `Endpoint.Checked`: what the checks ensure.
* `ViewQuery.exists_of_build_missing`: a marker is missed only by a text that lacks it from the start,
  although there is something to put in for it.
-/

namespace SparqlViews

theorem Marker.eq_of_text_eq {m k : Marker} (h : m.text = k.text) : m = k := by
  cases m <;> cases k <;> first | rfl | exact absurd h (by decide)

/-! ### Markers that a query misses -/

namespace ViewQuery

variable {q : ViewQuery} {marker content : String}

theorem exists_of_build_missing (h : q.build = .error (.missingMarker marker content)) :
    ∃ texts m, marker = m.text ∧ Flat.conditions q.view q.renderedShape q.root = .ok texts ∧
      m.isIn (Flat.base q.view q.renderedShape q.root q.template) = false ∧
      Flat.filling q.renderedShape q.root texts m ≠ [] := by
  have hfree : q.view.get? q.root = none := by
    rw [← Option.not_isSome_iff_eq_none]
    intro hsome
    rw [build_of_collision hsome] at h
    cases h
  rw [build_of_no_collision hfree] at h
  cases hrender : q.render with
  | ok text =>
    rw [hrender] at h
    cases h
  | error e =>
    rw [hrender] at h
    cases h
    unfold render at hrender
    split at hrender
    · rcases Flat.render_error_cases hrender with ⟨reason, -, he⟩ | ⟨d, -, he⟩ |
        ⟨texts, m, content, htexts, hout, hgiven, he⟩
      · cases he
      · cases he
      · cases he
        exact ⟨texts, m, rfl, htexts, hout, hgiven⟩
    · obtain ⟨d, -, he⟩ := Steps.mapError_eq_error.1 hrender
      cases he

end ViewQuery

namespace Endpoint

variable {settings : Settings} {s t : ViewStore} {d : EndpointDefinition} {e : Endpoint}
  {root name owner choice : String} {names : List String}

/-! ### Views that are looked up -/

/-- **A name whose view can be served**: it has one, and no entry of it is named like the root. -/
def Usable (root : String) (s : ViewStore) (name : String) : Prop :=
  ∃ v, s.Denotes name (.ok v) ∧ v.get? root = none

theorem Usable.of_map? (h : Usable root s name) (hmap : ∀ x, t.map? x = s.map? x) :
    Usable root t name := by
  obtain ⟨v, hv, hget⟩ := h
  exact ⟨v, hv.mono fun x _ => hmap x, hget⟩

/-- **A view that passes its check can be served**, and the store says what it said before. -/
theorem usable_of_checkView (hs : s.Sound) (h : checkView owner root s name = .ok t) :
    t.Sound ∧ s.Agrees t ∧ Usable root t name := by
  obtain ⟨hsound, hagrees, hdenotes⟩ := ViewStore.resolution_resolve hs name
  unfold checkView at h
  split at h
  · cases h
  · rename_i v s' hs'
    rw [hs'] at hsound hagrees hdenotes
    split at h
    · cases h
    · rename_i hget
      cases h
      refine ⟨hsound, hagrees, Usable.of_map? ⟨v, hdenotes, ?_⟩ fun x => (hagrees.map? x).symm⟩
      exact Option.not_isSome_iff_eq_none.1 hget

theorem usable_of_checkViews (hs : s.Sound)
    (h : names.foldlM (checkView owner root) s = .ok t) :
    t.Sound ∧ ∀ name ∈ names, Usable root t name := by
  refine Steps.foldlM_induction (P := fun done s => s.Sound ∧ ∀ name ∈ done, Usable root s name)
    ⟨hs, by simp⟩ ?_ h
  rintro done name s t - ⟨hs, husable⟩ ht
  obtain ⟨hsound, hagrees, hname⟩ := usable_of_checkView hs ht
  refine ⟨hsound, fun other hother => ?_⟩
  rcases List.mem_append.1 hother with hother | hother
  · exact (husable other hother).of_map? fun x => (hagrees.map? x).symm
  · rwa [List.mem_singleton.1 hother]

/-! ### What the checks ensure -/

/-- **An endpoint that has been checked.** -/
structure Checked (e : Endpoint) (s : ViewStore) : Prop where
  sound : s.Sound
  default : Usable e.root s e.defaultView
  choices : ∀ choice name, e.views.get? choice = some name → Usable e.root s name
  markers : ∀ template, e.template = some template →
    ∀ m ∈ requiredMarkers e.base.isSome e.limits, m.isIn template.toList = true

theorem isIn_of_checkTemplate {limits : Limits} {template : String}
    (htemplate : d.template = some template) (h : checkTemplate d limits = .ok ()) :
    ∀ m ∈ requiredMarkers d.base.isSome limits, m.isIn template.toList = true := by
  unfold checkTemplate at h
  rw [htemplate] at h
  dsimp only at h
  split_ifs at h
  split at h
  · cases h
  · rename_i hnone
    intro m hm
    simpa using List.find?_eq_none.1 hnone m hm

/-- **What the endpoint of a definition takes from it** and from the settings, for the texts of queries;
its template has been checked. -/
structure MadeOf (settings : Settings) (d : EndpointDefinition) (e : Endpoint) : Prop where
  base : e.base = d.base
  template : e.template = d.template
  limits : e.limits = Limits.orElse ⟨d.softLimit, d.limit⟩ settings.limits
  check : checkTemplate d e.limits = .ok ()

theorem madeOf_ofDefinition (h : ofDefinition settings s d = .ok (e, t)) : MadeOf settings d e := by
  obtain ⟨_, _, h⟩ := Steps.bind_eq_ok.1 h
  obtain ⟨_, _, h⟩ := Steps.bind_eq_ok.1 h
  obtain ⟨⟨⟩, hcheck, h⟩ := Steps.bind_eq_ok.1 h
  obtain ⟨_, _, h⟩ := Steps.bind_eq_ok.1 h
  cases h
  exact ⟨rfl, rfl, rfl, hcheck⟩

theorem base_of_ofDefinition (h : ofDefinition settings s d = .ok (e, t)) : e.base = d.base :=
  (madeOf_ofDefinition h).base

/-- **The template of an endpoint has the markers that every request fills.** -/
theorem MadeOf.markers (h : MadeOf settings d e) : ∀ template, e.template = some template →
    ∀ m ∈ requiredMarkers e.base.isSome e.limits, m.isIn template.toList = true := by
  intro template htemplate
  rw [h.base]
  exact isIn_of_checkTemplate (h.template ▸ htemplate) h.check

theorem checked_of_ofDefinition (hs : s.Sound) (h : ofDefinition settings s d = .ok (e, t)) :
    Checked e t := by
  have hmarkers := (madeOf_ofDefinition h).markers
  obtain ⟨⟨names, s₁⟩, hall, h⟩ := Steps.bind_eq_ok.1 h
  obtain ⟨⟨defaultName, s₂⟩, hdefault, h⟩ := Steps.bind_eq_ok.1 h
  obtain ⟨_, _, h⟩ := Steps.bind_eq_ok.1 h
  obtain ⟨s₃, hcheck, h⟩ := Steps.bind_eq_ok.1 h
  cases h
  obtain ⟨_, _, hloaded, _⟩ := registerAll_loaded (.refl hs) hall
  obtain ⟨_, _, hloaded', _⟩ := registerDefault_loaded hloaded hdefault
  obtain ⟨hsound, husable⟩ := usable_of_checkViews hloaded'.sound hcheck
  refine ⟨hsound, husable _ List.mem_cons_self, fun choice name hname => ?_, hmarkers⟩
  exact husable name (List.mem_cons_of_mem _
    (List.mem_map_of_mem (f := Prod.snd) (Table.mem_entries_of_get? hname)))

theorem Checked.lookups (h : Checked e s) (names : List String) :
    Checked e (s.after (names.map .resolve)) := by
  have hloaded := (ViewStore.Loaded.refl h.sound).lookups names
  have hmap : ∀ x, (s.after (names.map .resolve)).map? x = s.map? x :=
    fun x => hloaded.others x List.not_mem_nil
  exact ⟨hloaded.sound, h.default.of_map? hmap, fun choice name hname =>
    (h.choices choice name hname).of_map? hmap, h.markers⟩

theorem Checked.exists_view (h : Checked e s) {request : Option String}
    (hrequest : ∀ choice ∈ request, (e.views.get? choice).isSome) :
    ∃ v, (e.view s request).1 = .ok v ∧ v.get? e.root = none := by
  have hview : ∀ name, e.storeName request = .ok name → Usable e.root s name →
      ∃ v, (e.view s request).1 = .ok v ∧ v.get? e.root = none := by
    rintro name hname ⟨v, hv, hget⟩
    refine ⟨v, ?_, hget⟩
    rw [view, hname]
    exact (ViewStore.resolution_resolve h.sound name).2.2.unique hv
  cases request with
  | none => exact hview _ rfl h.default
  | some choice =>
    obtain ⟨name, hname⟩ := Option.isSome_iff_exists.1 (hrequest choice rfl)
    exact hview name (by rw [storeName, hname]) (h.choices choice name hname)

/-- **The markers that every request fills are in the text that they are filled in.** -/
theorem isIn_base {m : Marker} (h : ∀ template, e.template = some template →
      ∀ k ∈ requiredMarkers e.base.isSome e.limits, k.isIn template.toList = true)
    (hm : m ∈ requiredMarkers e.base.isSome e.limits) (v : View) (shape : Shape) :
    m.isIn (Flat.base v shape e.root e.template) = true := by
  cases htemplate : e.template with
  | none => exact Flat.isIn_template m v shape e.root
  | some template => exact h template htemplate m hm


/-! ### Requests that only choose a view -/

theorem step_viewParameter (labels : Prefixes) (r : Request) (value : String) :
    r.step labels (viewParameter, value) = .ok r := by
  rw [Request.step]
  exact if_pos (by decide)

theorem request_of_choices (q : ViewQuery) (labels : Prefixes) {parameters : List (String × String)}
    (h : ∀ p ∈ parameters, p.1 = viewParameter) : q.request labels parameters = .ok q := by
  have hsteps : ∀ r : Request, parameters.foldlM (Request.step labels) r = .ok r := by
    intro r
    induction parameters with
    | nil => rfl
    | cons p parameters ih =>
      obtain ⟨name, value⟩ := p
      obtain rfl : name = viewParameter := h _ List.mem_cons_self
      rw [List.foldlM_cons, step_viewParameter]
      exact ih fun p hp => h p (List.mem_cons_of_mem _ hp)
  rw [ViewQuery.request, hsteps]
  rfl

theorem mem_requiredMarkers_of_filling {labels : Prefixes} {v : View} {m : Marker}
    (h : Flat.filling (e.prepare labels v).renderedShape root [] m ≠ []) :
    m ∈ requiredMarkers e.base.isSome e.limits := by
  cases m with
  | inject =>
    have hbase : e.base.isSome := by
      by_contra hnone
      rw [Option.not_isSome_iff_eq_none] at hnone
      exact h (by simp [Flat.filling, prepare, ViewQuery.renderedShape, hnone])
    simp [requiredMarkers, hbase]
  | filter => exact absurd rfl h
  | sort => exact List.mem_cons_self
  | modifiers =>
    have hlimit : (e.limits.effective none).isSome := by
      by_contra hnone
      rw [Option.not_isSome_iff_eq_none] at hnone
      refine h ?_
      simp [Flat.filling, prepare, ViewQuery.renderedShape, ViewQuery.effectiveLimit, hnone,
        Clause.pageLines]
    simp [requiredMarkers, hlimit]

/-- **A prepared query is built unless it needs an inner select.** -/
theorem Checked.build_prepare (h : Checked e s) (labels : Prefixes) {v : View}
    (hv : v.get? e.root = none) :
    (∃ text, (e.prepare labels v).build = .ok text) ∨
      ∃ reason, (e.prepare labels v).build = .error (.nestedSelectRequired reason) := by
  set q := e.prepare labels v with hq
  have hbuild := ViewQuery.build_of_no_collision (q := q) hv
  cases hrender : q.render with
  | ok text =>
    rw [hrender] at hbuild
    exact .inl ⟨_, hbuild⟩
  | error error =>
    rw [hrender] at hbuild
    refine .inr ?_
    unfold ViewQuery.render at hrender
    split at hrender
    · rcases Flat.render_error_cases hrender with ⟨reason, -, rfl⟩ | ⟨d, hd, -⟩ |
        ⟨texts, m, content, htexts, hout, hgiven, -⟩
      · exact ⟨reason, hbuild⟩
      · cases hd
      · -- no request has come yet, so that only the markers that every request fills are used
        cases htexts
        have hin := isIn_base h.markers (mem_requiredMarkers_of_filling hgiven) q.view q.renderedShape
        exact absurd (hout.symm.trans hin) (by decide)
    · have hrendered : ∃ text, Nested.render q.view q.renderedShape q.root = .ok text :=
        Nested.exists_render q.root (fun _ hf => nomatch hf) (fun _ hk => nomatch hk)
      obtain ⟨text, htext⟩ := hrendered
      rw [htext] at hrender
      cases hrender

/-! ### All requests -/

theorem request_eq (e : Endpoint) (s : ViewStore) (parameters : List (String × String)) :
    (e.request s parameters).1 = (do
      let v ← ((e.view s (chosenView parameters)).1).mapError .view
      (e.prepare s.prefixes v).request s.prefixes parameters) := by
  rcases hview : e.view s (chosenView parameters) with ⟨answer, t⟩
  simp only [request, prototype, hview, Prod.map]
  cases answer <;> rfl

theorem compile_eq_build (e : Endpoint) (s : ViewStore) (parameters : List (String × String)) :
    (e.compile s parameters).1 = (e.request s parameters).1 >>= ViewQuery.build := rfl

theorem compile_eq (e : Endpoint) (s : ViewStore) (parameters : List (String × String)) :
    (e.compile s parameters).1 = (do
      let v ← ((e.view s (chosenView parameters)).1).mapError .view
      let q ← (e.prepare s.prefixes v).request s.prefixes parameters
      q.build) := by
  rw [compile_eq_build, request_eq, bind_assoc]

/-- **No request misses a marker that every request fills**, whatever the store is by then. -/
theorem Checked.ne_missing (h : Checked e s) {m : Marker}
    (hm : m ∈ requiredMarkers e.base.isSome e.limits) (later : ViewStore)
    (parameters : List (String × String)) (content : String) :
    (e.compile later parameters).1 ≠ .error (.missingMarker m.text content) := by
  intro hmissing
  rw [compile_eq] at hmissing
  rcases Steps.bind_eq_error.1 hmissing with hview | ⟨v, -, hmissing⟩
  · obtain ⟨error, -, herror⟩ := Steps.mapError_eq_error.1 hview
    cases herror
  rcases Steps.bind_eq_error.1 hmissing with hrequest | ⟨q, hq, hbuild⟩
  · cases ViewQuery.ofRequest_of_request hrequest
  · obtain ⟨shape, rfl, -, -⟩ := (ViewQuery.asked_of_request hq).exists_shape
    obtain ⟨texts, k, hk, -, hout, -⟩ := ViewQuery.exists_of_build_missing hbuild
    obtain rfl := Marker.eq_of_text_eq hk
    exact absurd (hout.symm.trans (isIn_base h.markers hm _ _)) (by decide)

/-- **The checks of an endpoint suffice.** Once a definition has been accepted over a store that came
about by any operations, and whatever has been looked up since, a request that only chooses a view of
the definition gives a query or needs an inner select. And no request, over any store, misses the marker
of the order; nor that of the base pattern if there is one, nor that of the page if a request without a
limit has one. -/
theorem compile_of_checks (labels : Prefixes) (first : ℕ) (operations : List ViewStore.Operation)
    (h : ofDefinition settings
      (ViewStore.after { prefixes := labels, nextVersion := first } operations) d = .ok (e, t)) :
    (∀ (lookups : List String) parameters, (∀ p ∈ parameters, p.1 = viewParameter) →
      (∀ choice ∈ chosenView parameters, (d.views.get? choice).isSome) →
      let answer := (e.compile (t.after (lookups.map .resolve)) parameters).1
      (∃ text, answer = .ok text) ∨ ∃ reason, answer = .error (.nestedSelectRequired reason)) ∧
    ∀ later parameters marker content,
      (e.compile later parameters).1 = .error (.missingMarker marker content) →
      marker ≠ Marker.sort.text ∧
      ((d.base).isSome → marker ≠ Marker.inject.text) ∧
      ((e.limits.effective none).isSome → marker ≠ Marker.modifiers.text) := by
  have hs := (ViewStore.sound_empty labels first).after operations
  have hchecked := checked_of_ofDefinition hs h
  obtain ⟨more, -, -, hviews⟩ := ofDefinition_loaded (.refl hs) h
  have hbase : e.base = d.base := base_of_ofDefinition h
  constructor
  · intro lookups parameters hparameters hchoices answer
    have hchecked' := hchecked.lookups lookups
    obtain ⟨v, hv, hfree⟩ := hchecked'.exists_view fun choice hchoice => by
      obtain ⟨ref, href⟩ := Option.isSome_iff_exists.1 (hchoices choice hchoice)
      obtain ⟨name, hname, -⟩ := hviews.choices choice ref href
      exact Option.isSome_iff_exists.2 ⟨name, hname⟩
    have hanswer : answer = (e.prepare (t.after (lookups.map .resolve)).prefixes v).build := by
      simp only [answer, compile_eq, hv]
      exact congrArg (· >>= ViewQuery.build) (request_of_choices _ _ hparameters)
    rw [hanswer]
    exact hchecked'.build_prepare _ hfree
  · intro later parameters marker content hmissing
    have hne : ∀ m ∈ requiredMarkers e.base.isSome e.limits, marker ≠ m.text := by
      rintro m hm rfl
      exact hchecked.ne_missing hm later parameters content hmissing
    refine ⟨hne _ List.mem_cons_self, fun hsome => hne _ ?_, fun hlimit => hne _ ?_⟩
    · rw [← hbase] at hsome
      simp [requiredMarkers, hsome]
    · simp [requiredMarkers, hlimit]

/-- An endpoint of stations with a template, a base pattern, and a view to choose. -/
def templateDefinition : EndpointDefinition := {
  name := "station"
  view := some (.inline [.short "rdfs:label"])
  views := Table.ofList [("brief", .inline [.short "rdfs:comment"])]
  base := some "?id a <http://e/Station> ."
  template := some "SELECT ?id WHERE \x7b #$INJECT$ ?id ?p ?comment \x7d\n#$SORT$ #$MODIFIERS$" }

/-- The choice of a view is answered, and a place that a request names finds the marker it needs. -/
theorem compile_of_checks_of_brief :
    ∃ e t, ofDefinition {}
        (ViewStore.after { prefixes := Prefixes.standard, nextVersion := 1 } []) templateDefinition =
          .ok (e, t) ∧
      ((∃ text, (e.compile t [("_view", "brief")]).1 = .ok text) ∨
        ∃ reason, (e.compile t [("_view", "brief")]).1 = .error (.nestedSelectRequired reason)) ∧
      ∀ content, (e.compile t [("_near", "50.9,6.9,10")]).1 ≠
        .error (.missingMarker Marker.inject.text content) := by
  have hok : (ofDefinition {}
      (ViewStore.after { prefixes := Prefixes.standard, nextVersion := 1 } [])
      templateDefinition).isOk = true := by decide +kernel
  cases hd : ofDefinition {}
      (ViewStore.after { prefixes := Prefixes.standard, nextVersion := 1 } []) templateDefinition with
  | error error =>
    rw [hd] at hok
    cases hok
  | ok answer =>
    obtain ⟨e, t⟩ := answer
    obtain ⟨hchosen, hmarkers⟩ := compile_of_checks _ _ _ hd
    refine ⟨e, t, rfl, hchosen [] [("_view", "brief")] (by decide) (by decide), ?_⟩
    intro content hmissing
    obtain ⟨-, hinject, -⟩ := hmarkers t _ _ content hmissing
    exact hinject rfl rfl

end Endpoint

end SparqlViews
