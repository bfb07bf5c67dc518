import SparqlViews.Endpoint.Catalog
import SparqlViews.Proofs.Steps
import SparqlViews.Proofs.Store.Loading
import SparqlViews.Proofs.Table

/-! # The own views of endpoints

An endpoint puts the views of its own into the store of all named views, under names made of its own
name and that of the choice, the view without a choice under a fixed one. Nothing keeps these names
apart. As far as they are distinct, and none is that of a named view, each endpoint serves the views of
its definition and each named view is what it was (`Catalog.own_views_served`); else the view that
comes later takes the place of the earlier one (`Catalog.own_view_overwritten`).

* `ViewRef.ownNames`, `EndpointDefinition.ownNames`, `Document.ownNames`: the names that are taken.
* `Endpoint.ofDefinition_loaded`: the store of an endpoint has its own trees beside those before.
-/

namespace SparqlViews

/-! ### Names that are taken -/

/-- The name of what an endpoint says about a view, if it is a view of its own. -/
def ViewRef.ownNames (owner choice : String) : ViewRef → List String
  | .named _ => []
  | .inline _ => [Endpoint.ownName owner choice]

/-- The names of the views that an endpoint lets requests choose, as far as they are its own. -/
def ownChoiceNames (owner : String) (views : List (String × ViewRef)) : List String :=
  views.flatMap fun choice => choice.2.ownNames owner choice.1

/-- **The names of the own views of an endpoint**, in the order of registration. -/
def EndpointDefinition.ownNames (d : EndpointDefinition) : List String :=
  ownChoiceNames d.name d.views.entries ++
    d.view.toList.flatMap fun ref => ref.ownNames d.name Endpoint.defaultAlias

/-- **The names of the own views of all endpoints.** -/
def Document.ownNames (doc : Document) : List String :=
  doc.endpoints.flatMap EndpointDefinition.ownNames

namespace Endpoint

variable {labels : Prefixes} {owner choice name : String} {ref : ViewRef} {base s t : ViewStore}
  {own more : List (String × View)} {settings : Settings} {d : EndpointDefinition} {e : Endpoint}

/-! ### One view -/

/-- **The view of an own definition is among those registered**, under the name that is given. -/
def Serves (labels : Prefixes) (owner choice : String) (ref : ViewRef)
    (own : List (String × View)) (name : String) : Prop :=
  ∀ definitions, ref = .inline definitions →
    ∃ v, buildView labels (.endpointView owner choice) definitions = .ok v ∧ (name, v) ∈ own

theorem Serves.mono (h : Serves labels owner choice ref own name) (hsub : own ⊆ more) :
    Serves labels owner choice ref more name := by
  intro definitions hinline
  obtain ⟨v, hv, hmem⟩ := h definitions hinline
  exact ⟨v, hv, hsub hmem⟩

/-- **What an endpoint says about a view** registers at most the tree of it. -/
theorem register_loaded (h : base.Loaded own s) (hreg : register s owner choice ref = .ok (name, t)) :
    ∃ more, more.map Prod.fst = ref.ownNames owner choice ∧ base.Loaded (own ++ more) t ∧
      Serves base.prefixes owner choice ref more name := by
  cases ref with
  | named target =>
    rw [register] at hreg
    split at hreg
    · cases hreg
      refine ⟨[], rfl, by rwa [List.append_nil], ?_⟩
      rintro definitions heq
      cases heq
    · cases hreg
  | inline definitions =>
    obtain ⟨v, hv, hreg⟩ := Steps.bind_eq_ok.1 hreg
    obtain ⟨⟨version, t'⟩, ht', hreg⟩ := Steps.bind_eq_ok.1 hreg
    cases hreg
    refine ⟨[(ownName owner choice, v)], rfl, h.register ht', ?_⟩
    rintro _ heq
    cases heq
    exact ⟨v, h.prefixes ▸ hv, List.mem_singleton_self _⟩

/-! ### All views of an endpoint -/

/-- What is known after some of the views that requests may choose. -/
def ChoicesLoaded (base : ViewStore) (own : List (String × View)) (owner : String)
    (done : List (String × ViewRef)) (state : Table String × ViewStore) : Prop :=
  ∃ more, more.map Prod.fst = ownChoiceNames owner done ∧ base.Loaded (own ++ more) state.2 ∧
    ((done.map Prod.fst).Nodup → ∀ d ∈ done, ∃ name, state.1.get? d.1 = some name ∧
      Serves base.prefixes owner d.1 d.2 more name)

theorem ChoicesLoaded.step {done : List (String × ViewRef)} {names : Table String}
    (h : ChoicesLoaded base own owner done (names, s))
    (hreg : register s owner choice ref = .ok (name, t)) :
    ChoicesLoaded base own owner (done ++ [(choice, ref)]) (names.insert choice name, t) := by
  obtain ⟨before, hbefore, hloaded, hserves⟩ := h
  obtain ⟨more, hmore, hloaded', hnew⟩ := register_loaded hloaded hreg
  refine ⟨before ++ more, ?_, ?_, fun hnodup d hd => ?_⟩
  · rw [List.map_append, hbefore, hmore, ownChoiceNames, ownChoiceNames, List.flatMap_append]
    simp only [List.flatMap_cons, List.flatMap_nil, List.append_nil]
  · rwa [← List.append_assoc]
  · rw [List.map_append, List.nodup_append'] at hnodup
    obtain ⟨hdone, -, hapart⟩ := hnodup
    rw [Table.get?_insert]
    rcases List.mem_append.1 hd with hd | hd
    · -- the choices are distinct, so that the earlier one keeps its name
      have hne : choice ≠ d.1 := fun heq =>
        hapart (List.mem_map_of_mem hd) (heq ▸ List.mem_singleton_self choice)
      obtain ⟨name', hname', hserves'⟩ := hserves hdone d hd
      exact ⟨name', by rwa [if_neg hne], hserves'.mono (List.subset_append_left _ _)⟩
    · rw [List.mem_singleton.1 hd]
      exact ⟨name, if_pos rfl, hnew.mono (List.subset_append_right _ _)⟩

theorem registerAll_loaded (h : base.Loaded own s) {views : List (String × ViewRef)}
    {names : Table String} (hreg : registerAll s owner views = .ok (names, t)) :
    ChoicesLoaded base own owner views (names, t) := by
  refine Steps.foldlM_induction (P := ChoicesLoaded base own owner) ?_ ?_ hreg
  · exact ⟨[], rfl, by rwa [List.append_nil], fun _ _ hd => nomatch hd⟩
  · rintro done ⟨choice, ref⟩ ⟨names, s⟩ state - hs hstep
    obtain ⟨⟨name, t⟩, ht, hstep⟩ := Steps.bind_eq_ok.1 hstep
    cases hstep
    exact hs.step ht

theorem registerDefault_loaded (h : base.Loaded own s) {names : Table String}
    (hreg : registerDefault s d names = .ok (name, t)) :
    ∃ more, more.map Prod.fst = (d.view.toList.flatMap fun ref => ref.ownNames d.name defaultAlias) ∧
      base.Loaded (own ++ more) t ∧
      ∀ ref, d.view = some ref → Serves base.prefixes d.name defaultAlias ref more name := by
  unfold registerDefault at hreg
  split at hreg
  · rename_i ref values hview
    obtain ⟨more, hmore, hloaded, hserves⟩ := register_loaded h hreg
    refine ⟨more, by simp [hview, hmore], hloaded, fun ref' href' => ?_⟩
    rw [hview] at href'
    cases href'
    exact hserves
  · rename_i first values hview hvalues
    cases hreg
    refine ⟨[], by simp [hview], by rwa [List.append_nil], fun ref href => ?_⟩
    rw [hview] at href
    cases href
  · cases hreg

theorem checkView_loaded {root : String} (h : base.Loaded own s)
    (hcheck : checkView owner root s name = .ok t) : base.Loaded own t := by
  have hresolve := h.resolve name
  unfold checkView at hcheck
  split at hcheck
  · cases hcheck
  · rename_i v s' hs
    split at hcheck
    · cases hcheck
    · cases hcheck
      rwa [hs] at hresolve

/-- **The views that an endpoint answers with** are those of its definition, as far as they are its
own. -/
structure HasOwnViews (labels : Prefixes) (d : EndpointDefinition) (own : List (String × View))
    (e : Endpoint) : Prop where
  default : ∀ ref, d.view = some ref → Serves labels d.name defaultAlias ref own e.defaultView
  choices : ∀ choice ref, d.views.get? choice = some ref → ∃ name,
    e.views.get? choice = some name ∧ Serves labels d.name choice ref own name

theorem HasOwnViews.mono (h : HasOwnViews labels d own e) (hsub : own ⊆ more) :
    HasOwnViews labels d more e where
  default ref href := (h.default ref href).mono hsub
  choices choice ref href := by
    obtain ⟨name, hname, hserves⟩ := h.choices choice ref href
    exact ⟨name, hname, hserves.mono hsub⟩

/-- **The endpoint of a definition has registered its own views**, one after another. -/
theorem ofDefinition_loaded (h : base.Loaded own s)
    (hd : ofDefinition settings s d = .ok (e, t)) :
    ∃ more, more.map Prod.fst = d.ownNames ∧ base.Loaded (own ++ more) t ∧
      HasOwnViews base.prefixes d more e := by
  obtain ⟨⟨names, s₁⟩, hall, hd⟩ := Steps.bind_eq_ok.1 hd
  obtain ⟨⟨defaultName, s₂⟩, hdefault, hd⟩ := Steps.bind_eq_ok.1 hd
  obtain ⟨-, -, hd⟩ := Steps.bind_eq_ok.1 hd
  obtain ⟨s₃, hcheck, hd⟩ := Steps.bind_eq_ok.1 hd
  cases hd
  obtain ⟨chosen, hchosen, hloaded, hchoices⟩ := registerAll_loaded h hall
  obtain ⟨last, hlast, hloaded', hserves⟩ := registerDefault_loaded hloaded hdefault
  rw [List.append_assoc] at hloaded'
  refine ⟨chosen ++ last, ?_, ?_, ?_, ?_⟩
  · rw [List.map_append, hchosen, hlast, EndpointDefinition.ownNames]
  · exact Steps.foldlM_induction (P := fun _ s => base.Loaded (own ++ (chosen ++ last)) s) hloaded'
      (fun _ _ _ _ _ hs ht => checkView_loaded hs ht) hcheck
  · exact fun ref href => (hserves ref href).mono (List.subset_append_right _ _)
  · intro choice ref hget
    obtain ⟨name, hname, hserve⟩ :=
      hchoices d.views.nodup_names _ (Table.mem_entries_of_get? hget)
    exact ⟨name, hname, hserve.mono (List.subset_append_left _ _)⟩

/-! ### What an endpoint answers -/

theorem view_of_serves (h : base.Loaded own s) (hnodup : (own.map Prod.fst).Nodup)
    {request : Option String} (hname : e.storeName request = .ok name)
    (hserves : Serves labels owner choice ref own name) {definitions : List Definition}
    (hinline : ref = .inline definitions) :
    ∃ v, buildView labels (.endpointView owner choice) definitions = .ok v ∧
      (e.view s request).1 = .ok v := by
  obtain ⟨v, hv, hmem⟩ := hserves definitions hinline
  refine ⟨v, hv, ?_⟩
  rw [view, hname]
  exact h.resolve_tree hnodup hmem

end Endpoint

/-! ### Documents -/

namespace Document

variable {doc : Document} {base : ViewStore}

theorem nodup_names_of_validateFrom {seen : List String} {endpoints : List EndpointDefinition}
    (h : validateFrom seen endpoints = .ok ()) :
    (endpoints.map EndpointDefinition.name).Nodup ∧ ∀ d ∈ endpoints, d.name ∉ seen := by
  induction endpoints generalizing seen with
  | nil => exact ⟨List.nodup_nil, fun _ hd => nomatch hd⟩
  | cons d endpoints ih =>
    rw [validateFrom] at h
    split at h
    · cases h
    · rename_i hnew
      split at h
      · cases h
      · obtain ⟨hnodup, hseen⟩ := ih h
        refine ⟨List.nodup_cons.2 ⟨?_, hnodup⟩, ?_⟩
        · intro hmem
          obtain ⟨d', hd', heq⟩ := List.mem_map.1 hmem
          exact hseen d' hd' (heq ▸ List.mem_cons_self)
        · rintro d' hd'
          rcases List.mem_cons.1 hd' with rfl | hd'
          · simpa using hnew
          · exact fun hmem => hseen d' hd' (List.mem_cons_of_mem _ hmem)

/-- **The store of a document** is sound, has its labels, and no names but those of its views. -/
theorem store_spec (h : doc.store = .ok base) : (doc.endpoints.map EndpointDefinition.name).Nodup ∧
    base.Sound ∧ base.prefixes = doc.prefixes ∧
      ∀ name, (base.map? name).isSome → name ∈ doc.views.names := by
  obtain ⟨⟨⟩, hvalid, h⟩ := Steps.bind_eq_ok.1 h
  refine ⟨(nodup_names_of_validateFrom hvalid).1, ?_⟩
  refine Steps.foldlM_induction (P := fun done s => s.Sound ∧ s.prefixes = doc.prefixes ∧
    ∀ name, (s.map? name).isSome → name ∈ done.map Prod.fst) ?_ ?_ h
  · refine ⟨ViewStore.sound_empty doc.prefixes 1, rfl, fun name hname => ?_⟩
    cases hname
  · rintro done ⟨name, definition⟩ s t - ⟨hsound, hlabels, hnames⟩ hstep
    obtain ⟨source, -, hstep⟩ := Steps.bind_eq_ok.1 hstep
    obtain ⟨⟨version, t'⟩, ht', hstep⟩ := Steps.bind_eq_ok.1 hstep
    cases hstep
    refine ⟨hsound.register ht', (ViewStore.prefixes_register ht').trans hlabels, fun x hx => ?_⟩
    rw [ViewStore.map?_of_register ht'] at hx
    rw [List.map_append, List.mem_append]
    split at hx
    · rename_i heq
      exact .inr (heq ▸ List.mem_singleton_self name)
    · exact .inl (hnames x hx)

end Document

namespace Catalog

variable {settings : Settings} {doc : Document} {c : Catalog}

/-- What is known after some of the endpoints. -/
def EndpointsLoaded (base : ViewStore) (done : List EndpointDefinition) (c : Catalog) : Prop :=
  ∃ own, own.map Prod.fst = done.flatMap EndpointDefinition.ownNames ∧ base.Loaded own c.store ∧
    ((done.map EndpointDefinition.name).Nodup → ∀ d ∈ done, ∃ e, c.get? d.name = some e ∧
      Endpoint.HasOwnViews base.prefixes d own e)

theorem EndpointsLoaded.step {base : ViewStore} {done : List EndpointDefinition} {c' : Catalog}
    {d : EndpointDefinition} (h : EndpointsLoaded base done c) (hadd : c.add settings d = .ok c') :
    EndpointsLoaded base (done ++ [d]) c' := by
  obtain ⟨own, hown, hloaded, hendpoints⟩ := h
  obtain ⟨⟨e, t⟩, he, hadd⟩ := Steps.bind_eq_ok.1 hadd
  cases hadd
  obtain ⟨more, hmore, hloaded', hviews⟩ := Endpoint.ofDefinition_loaded hloaded he
  refine ⟨own ++ more, ?_, hloaded', fun hnodup d' hd' => ?_⟩
  · rw [List.map_append, hown, hmore, List.flatMap_append]
    simp only [List.flatMap_cons, List.flatMap_nil, List.append_nil]
  · rw [List.map_append, List.nodup_append'] at hnodup
    obtain ⟨hdone, -, hapart⟩ := hnodup
    rw [get?, Table.get?_insert]
    rcases List.mem_append.1 hd' with hd' | hd'
    · -- endpoints have distinct names, so that the earlier one is still there
      have hne : d.name ≠ d'.name := fun heq =>
        hapart (List.mem_map_of_mem hd') (heq ▸ List.mem_singleton_self d.name)
      obtain ⟨e', he', hviews'⟩ := hendpoints hdone d' hd'
      exact ⟨e', by rwa [if_neg hne], hviews'.mono (List.subset_append_left _ _)⟩
    · rw [List.mem_singleton.1 hd']
      exact ⟨e, if_pos rfl, hviews.mono (List.subset_append_right _ _)⟩

theorem exists_endpointsLoaded (h : ofDocument settings doc = .ok c) :
    ∃ base, doc.store = .ok base ∧ EndpointsLoaded base doc.endpoints c := by
  obtain ⟨base, hbase, h⟩ := Steps.bind_eq_ok.1 h
  obtain ⟨-, hsound, -, -⟩ := Document.store_spec hbase
  refine ⟨base, hbase, Steps.foldlM_induction (P := EndpointsLoaded base) ?_ ?_ h⟩
  · exact ⟨[], rfl, .refl hsound, fun _ _ hd => nomatch hd⟩
  · exact fun _ _ _ _ _ hs ht => hs.step ht

/-- **Each endpoint serves its own views**, as far as the names that the own views of all endpoints
get are distinct, and distinct from those of the named views. Whatever has been looked up before, a
request without a choice and one with a choice get the view of the definition, and every named view is
what it was before there were endpoints. -/
theorem own_views_served (h : ofDocument settings doc = .ok c)
    (hnames : (doc.views.names ++ doc.ownNames).Nodup) (lookups : List String) :
    let s := c.store.after (lookups.map .resolve)
    (∀ d ∈ doc.endpoints, ∃ e, c.get? d.name = some e ∧
      (∀ definitions, d.view = some (.inline definitions) →
        ∃ v, buildView doc.prefixes (.endpointView d.name Endpoint.defaultAlias) definitions = .ok v ∧
          (e.view s none).1 = .ok v) ∧
      ∀ choice definitions, d.views.get? choice = some (.inline definitions) →
        ∃ v, buildView doc.prefixes (.endpointView d.name choice) definitions = .ok v ∧
          (e.view s (some choice)).1 = .ok v) ∧
    ∃ base, doc.store = .ok base ∧
      ∀ name v, (base.resolve name).1 = .ok v → (s.resolve name).1 = .ok v := by
  intro s
  obtain ⟨base, hbase, own, hown, hloaded, hendpoints⟩ := exists_endpointsLoaded h
  obtain ⟨hdistinct, hsound, hlabels, hviews⟩ := Document.store_spec hbase
  obtain ⟨-, hnodup, hapart⟩ := List.nodup_append'.1 hnames
  have hloaded' : base.Loaded own s := hloaded.lookups lookups
  have hnodup' : (own.map Prod.fst).Nodup := hown ▸ hnodup
  refine ⟨fun d hd => ?_, base, hbase, fun name v hv => ?_⟩
  · obtain ⟨e, he, hdefault, hchoices⟩ := hendpoints hdistinct d hd
    rw [hlabels] at hdefault hchoices
    refine ⟨e, he, fun definitions hview => ?_, fun choice definitions hview => ?_⟩
    · exact Endpoint.view_of_serves hloaded' hnodup' rfl (hdefault _ hview) rfl
    · obtain ⟨name, hname, hserves⟩ := hchoices choice _ hview
      refine Endpoint.view_of_serves hloaded' hnodup' ?_ hserves rfl
      rw [Endpoint.storeName, hname]
  · refine hloaded'.resolve_other hsound (fun x hx hmem => ?_) hv
    rw [hown] at hmem
    exact hapart (hviews x hx) hmem

/-! ### A document with and without a clash -/

/-- An endpoint with a view of its own and one to choose. -/
def stationDocument (choice : String) : Document := {
  endpoints := [{
    name := "station"
    view := some (.inline [.short "rdfs:label"])
    views := Table.ofList [(choice, .inline [.short "rdfs:comment"])] }] }

/-- The view of one property of the vocabulary `rdfs`. -/
def rdfsView (name : String) : View :=
  .leaf { name, iri := "http://www.w3.org/2000/01/rdf-schema#" ++ name } .empty

/-- A choice of its own name is served. -/
theorem own_views_served_of_brief :
    ∃ c, ofDocument {} (stationDocument "brief") = .ok c ∧ ∃ e, c.get? "station" = some e ∧
      ∃ v, buildView (stationDocument "brief").prefixes (.endpointView "station" "brief")
          [.short "rdfs:comment"] = .ok v ∧ (e.view c.store (some "brief")).1 = .ok v := by
  have hok : (ofDocument {} (stationDocument "brief")).isOk = true := by decide +kernel
  cases hc : ofDocument {} (stationDocument "brief") with
  | error err =>
    rw [hc] at hok
    cases hok
  | ok c =>
    obtain ⟨hserved, -⟩ := own_views_served hc (by decide) []
    obtain ⟨e, he, -, hchoices⟩ := hserved _ (List.mem_singleton_self _)
    obtain ⟨v, hv, hview⟩ := hchoices "brief" [.short "rdfs:comment"] rfl
    exact ⟨c, rfl, e, he, v, hv, hview⟩

/-- The view that an endpoint of a document answers with, if it does. -/
def servedView (doc : Document) (name : String) (choice : Option String) : Option View :=
  (ofDocument {} doc).toOption.bind fun c => (c.get? name).bind fun e =>
    (e.view c.store choice).1.toOption

/-- **The view without a choice takes the place of a choice** that is called like it: the document is
accepted, and the choice gets the labels that the definition has for requests without one. -/
theorem own_view_overwritten :
    let doc := stationDocument "default"
    servedView doc "station" none = some (rdfsView "label") ∧
    servedView doc "station" (some "default") = some (rdfsView "label") ∧
    buildView doc.prefixes (.endpointView "station" "default") [.short "rdfs:comment"] =
      .ok (rdfsView "comment") ∧
    rdfsView "label" ≠ rdfsView "comment" := by
  decide +kernel

end Catalog

end SparqlViews
