import SparqlViews.Proofs.Endpoint.RequestTerms
import SparqlViews.Proofs.Query.Reachable

/-! # Requests as operations

A request does to its query what a run of operations does, of the kinds that parameters ask for
(`ViewQuery.asked_of_request`). These change nothing of the query but its shape
(`ViewQuery.Asked.exists_shape`). A request is refused by the view or for one of its values, and for
no other reason (`ViewQuery.ofRequest_of_request`).

* `Operation.OfRequest`: the operations that parameters ask for.
* `Request.StepOf`: what one parameter does.
* `Kept`, `Request.kept_step`: what no operation takes away, no parameter takes away.
* `QueryError.OfRequest`: the errors of a request.
-/

namespace SparqlViews

namespace ViewQuery

variable {base q q' : ViewQuery} {operation : Operation} {operations : List Operation}

/-! ### Operations of requests -/

/-- **The operations that parameters ask for.** -/
inductive Operation.OfRequest : Operation → Prop
  | filter (name : String) (values : List Term) : OfRequest (.filter name values)
  | filterRange (name : String) (comparison : Comparison) (value : Term) :
    OfRequest (.filterRange name comparison value)
  | filterPresent (name : String) (mustExist : Bool) : OfRequest (.filterPresent name mustExist)
  | sortBy (name : String) (descending : Bool) : OfRequest (.sortBy name descending)
  | page (limit offset : Option ℕ) : OfRequest (.page limit offset)
  | near (latitude longitude radius : Float) : OfRequest (.near latitude longitude radius)
  | distinct (b : Bool) : OfRequest (.distinct b)

/-- The operation sets the page. -/
def Operation.isPage : Operation → Bool
  | .page _ _ => true
  | _ => false

/-- **A property of queries that single parameters keep**: no operation of a request but the page
takes it away. -/
def Kept (P : ViewQuery → Prop) : Prop :=
  ∀ {q q' : ViewQuery} {o : Operation}, P q → o.OfRequest → o.isPage = false →
    q.perform o = .ok q' → P q'

/-- **A query is asked for** if such operations make it. -/
def Asked (base q : ViewQuery) : Prop :=
  ∃ operations, (∀ o ∈ operations, o.OfRequest) ∧ base.run operations = .ok q

namespace Asked

theorem refl (q : ViewQuery) : Asked q q := ⟨[], by simp, rfl⟩

theorem perform (h : Asked base q) (ho : operation.OfRequest) (hq : q.perform operation = .ok q') :
    Asked base q' := by
  obtain ⟨operations, hall, hrun⟩ := h
  refine ⟨operations ++ [operation], fun o hmem => ?_, ?_⟩
  · rcases List.mem_append.1 hmem with hmem | hmem
    · exact hall o hmem
    · rwa [List.mem_singleton.1 hmem]
  · have hrest : q.run [operation] = .ok q' := Steps.foldlM_cons_eq_ok.2 ⟨q', hq, rfl⟩
    rw [run, List.foldlM_append, ← run, hrun]
    exact hrest

theorem kept (base : ViewQuery) : Kept (Asked base) := fun h ho _ hq => h.perform ho hq

/-- **What one operation of a request changes** lies in the shape. It binds nothing and adds no transform,
and only the page sets the limit. -/
theorem exists_shape_of_perform (ho : operation.OfRequest) (hq : q.perform operation = .ok q') :
    ∃ shape, q' = { q with shape } ∧ shape.bindings = q.shape.bindings ∧
      shape.transforms = q.shape.transforms ∧
      (operation.isPage = false → shape.limit = q.shape.limit) := by
  cases ho with
  | filter name values =>
    obtain ⟨path, -, hq⟩ := Steps.bind_eq_ok.1 hq
    exact ⟨_, (Except.ok.inj hq).symm, rfl, rfl, fun _ => rfl⟩
  | filterRange name comparison value =>
    obtain ⟨path, -, hq⟩ := Steps.bind_eq_ok.1 hq
    exact ⟨_, (Except.ok.inj hq).symm, rfl, rfl, fun _ => rfl⟩
  | filterPresent name mustExist =>
    obtain ⟨path, -, hq⟩ := Steps.bind_eq_ok.1 hq
    exact ⟨_, (Except.ok.inj hq).symm, rfl, rfl, fun _ => rfl⟩
  | sortBy name descending =>
    obtain ⟨path, -, hq⟩ := Steps.bind_eq_ok.1 hq
    exact ⟨_, (Except.ok.inj hq).symm, rfl, rfl, fun _ => rfl⟩
  | page limit offset => exact ⟨_, (Except.ok.inj hq).symm, rfl, rfl, fun h => nomatch h⟩
  | near latitude longitude radius =>
    exact ⟨_, (Except.ok.inj hq).symm, rfl, rfl, fun _ => rfl⟩
  | distinct b => exact ⟨_, (Except.ok.inj hq).symm, rfl, rfl, fun _ => rfl⟩

/-- **What is asked for differs in its shape alone**, and in no bindings and transforms of it. -/
theorem exists_shape (h : Asked base q) : ∃ shape, q = { base with shape } ∧
    shape.bindings = base.shape.bindings ∧ shape.transforms = base.shape.transforms := by
  obtain ⟨operations, hall, hrun⟩ := h
  refine Steps.foldlM_induction (P := fun _ q => ∃ shape, q = { base with shape } ∧
    shape.bindings = base.shape.bindings ∧ shape.transforms = base.shape.transforms)
    ⟨base.shape, rfl, rfl, rfl⟩ ?_ hrun
  rintro done operation q q' hmem ⟨shape, rfl, hbindings, htransforms⟩ hq
  obtain ⟨shape', rfl, hbindings', htransforms', -⟩ :=
    exists_shape_of_perform (hall operation hmem) hq
  exact ⟨shape', rfl, hbindings'.trans hbindings, htransforms'.trans htransforms⟩

end Asked

theorem kept_limit (limit : Option ℕ) : Kept fun q => q.shape.limit = limit := by
  intro q q' o hq ho hpage hperform
  obtain ⟨shape, rfl, -, -, hlimit⟩ := Asked.exists_shape_of_perform ho hperform
  exact (hlimit hpage).trans hq

end ViewQuery

/-! ### Steps of a request -/

namespace Request

open ViewQuery (Asked Kept)

variable {base q q' : ViewQuery} {labels : Prefixes} {r r' : Request} {P : ViewQuery → Prop}
  {name value : String}

/-- **What one parameter does.** It sets the limit or the offset, operations but the page change the
query, or it is gathered. -/
inductive StepOf (r : Request) (name value : String) : Request → Prop
  | limit {n : ℕ} (hname : name = "_limit") (hn : RequestValue.count name value = .ok n) :
    StepOf r name value { r with limit := some n }
  | offset {n : ℕ} (hname : name = "_offset") (hn : RequestValue.count name value = .ok n) :
    StepOf r name value { r with offset := some n }
  | query (operations : List ViewQuery.Operation) {query : ViewQuery} (hname : name ≠ "_limit")
    (hall : ∀ o ∈ operations, o.OfRequest ∧ o.isPage = false)
    (hrun : r.query.run operations = .ok query) : StepOf r name value { r with query }
  | gather (hname : name ≠ "_limit") :
    StepOf r name value { r with equalities := gather name value r.equalities }

theorem StepOf.perform {operation : ViewQuery.Operation} (hname : name ≠ "_limit")
    (ho : operation.OfRequest) (hpage : operation.isPage = false)
    (hq : r.query.perform operation = .ok q) : StepOf r name value { r with query := q } :=
  .query [operation] hname (by simp [ho, hpage])
    (Steps.foldlM_cons_eq_ok.2 ⟨q, hq, rfl⟩)

theorem stepOf_reserved (h : r.reserved name value = .ok r') : StepOf r name value r' := by
  unfold reserved at h
  split at h
  · rename_i hname
    obtain ⟨n, hn, h⟩ := Steps.bind_eq_ok.1 h
    cases h
    exact .limit hname hn
  rename_i hname
  split at h
  · rename_i hoffset
    obtain ⟨n, hn, h⟩ := Steps.bind_eq_ok.1 h
    cases h
    exact .offset hoffset hn
  split at h
  · obtain ⟨q, hq, rfl⟩ := of_alter h
    refine .query ((RequestValue.sortNames value).map fun key => .sortBy key.1 key.2) hname
      (fun o ho => ?_) ?_
    · obtain ⟨key, -, rfl⟩ := List.mem_map.1 ho
      exact ⟨.sortBy key.1 key.2, rfl⟩
    · rw [ViewQuery.run, List.foldlM_map]
      exact hq
  split at h
  · obtain ⟨⟨latitude, longitude, radius⟩, -, h⟩ := Steps.bind_eq_ok.1 h
    cases h
    exact .perform hname (.near latitude longitude radius) rfl rfl
  split at h
  · obtain ⟨b, -, h⟩ := Steps.bind_eq_ok.1 h
    cases h
    exact .perform hname (.distinct b) rfl rfl
  · cases h
    exact .query [] hname (by simp) rfl

theorem stepOf_step (h : r.step labels (name, value) = .ok r') : StepOf r name value r' := by
  unfold step at h
  dsimp only at h
  split at h
  · exact stepOf_reserved h
  · rename_i hplain
    have hname : name ≠ "_limit" := by
      rintro rfl
      exact hplain (by decide)
    split at h
    · obtain ⟨mustExist, -, h⟩ := Steps.bind_eq_ok.1 h
      obtain ⟨q, hq, rfl⟩ := of_alter h
      exact .perform hname (.filterPresent _ mustExist) rfl hq
    · rename_i comparison path hnone hcomparison
      obtain ⟨term, -, h⟩ := Steps.bind_eq_ok.1 h
      obtain ⟨q, hq, rfl⟩ := of_alter h
      exact .perform hname (.filterRange path comparison term) rfl hq
    · cases h
      exact .gather hname

/-- **What single operations keep, each parameter keeps.** -/
theorem kept_step (hP : Kept P) (hr : P r.query) {parameter : String × String}
    (h : r.step labels parameter = .ok r') : P r'.query := by
  cases stepOf_step h with
  | limit hname hn => exact hr
  | offset hname hn => exact hr
  | query operations hname hall hrun =>
    exact Steps.foldlM_induction (P := fun _ q => P q) hr
      (fun _ o _ _ ho hs ht => hP hs (hall o ho).1 (hall o ho).2 ht) hrun
  | gather hname => exact hr

theorem kept_equalities (hP : Kept P) (hq : P q) {equalities : List (String × List String)}
    (h : equalities.foldlM (applyEquality labels) q = .ok q') : P q' :=
  Steps.foldlM_induction (P := fun _ q => P q) hq (fun _ equality _ _ _ hs ht => by
    obtain ⟨terms, -, ht⟩ := Steps.bind_eq_ok.1 ht
    exact hP hs (.filter equality.1 terms) rfl (Steps.mapError_eq_ok.1 ht)) h

end Request

/-- **A request asks for its query.** -/
theorem ViewQuery.asked_of_request {q q' : ViewQuery} {labels : Prefixes}
    {parameters : List (String × String)} (h : q.request labels parameters = .ok q') :
    Asked q q' := by
  obtain ⟨r, hr, h⟩ := Steps.bind_eq_ok.1 h
  have hasked := Steps.foldlM_induction (P := fun _ r => Asked q r.query) (.refl q)
    (fun _ _ _ _ _ hs ht => Request.kept_step (Asked.kept q) hs ht) hr
  obtain ⟨q₁, hq₁, h⟩ := Steps.bind_eq_ok.1 h
  have hequalities := Request.kept_equalities (Asked.kept q) hasked hq₁
  split at h
  · cases h
    exact hequalities.perform (.page (r.limit.or q₁.shape.limit) r.offset) rfl
  · cases h
    exact hequalities

/-! ### Errors of a request -/

/-- The errors that a request may end with. -/
inductive QueryError.OfRequest : QueryError → Prop
  | value (name value : String) (fault : ParameterFault) :
    OfRequest (.invalidParameter name value fault)
  | view (error : ViewError) : OfRequest (.view error)

namespace Request

variable {q : ViewQuery} {labels : Prefixes} {r : Request} {name value : String} {e : QueryError}

theorem ofRequest_of_view {α : Type} {answer : Except ViewError α}
    (h : answer.mapError QueryError.view = .error e) : e.OfRequest := by
  obtain ⟨error, -, rfl⟩ := Steps.mapError_eq_error.1 h
  exact .view error

theorem ofRequest_of_alter {change : Except ViewError ViewQuery} (h : r.alter change = .error e) :
    e.OfRequest := by
  cases change with
  | ok q => cases h
  | error error =>
    cases h
    exact .view error

theorem ofRequest_of_count (h : RequestValue.count name value = .error e) : e.OfRequest := by
  obtain ⟨error, -, rfl⟩ := Steps.mapError_eq_error.1 h
  exact .value name value _

theorem ofRequest_of_truth (h : RequestValue.truth name value = .error e) : e.OfRequest := by
  unfold RequestValue.truth at h
  dsimp only at h
  split_ifs at h
  cases h
  exact .value name value _

theorem ofRequest_of_place (h : RequestValue.place name value = .error e) : e.OfRequest := by
  unfold RequestValue.place at h
  split at h
  · cases h
    exact .value name value _
  · split at h
    · cases h
      exact .value name value _
    · split at h
      · cases h
      · cases h
        exact .value name value _

theorem ofRequest_of_term (h : RequestValue.term q labels name value = .error e) : e.OfRequest := by
  rcases Steps.bind_eq_error.1 h with h | ⟨path, -, h⟩
  · exact ofRequest_of_view h
  · split at h
    · cases h
      exact .view _
    · obtain ⟨error, -, rfl⟩ := Steps.mapError_eq_error.1 h
      exact .value name value _

theorem ofRequest_of_reserved (h : r.reserved name value = .error e) : e.OfRequest := by
  unfold reserved at h
  split at h
  · rcases Steps.bind_eq_error.1 h with h | ⟨n, -, h⟩
    · exact ofRequest_of_count h
    · cases h
  split at h
  · rcases Steps.bind_eq_error.1 h with h | ⟨n, -, h⟩
    · exact ofRequest_of_count h
    · cases h
  split at h
  · exact ofRequest_of_alter h
  split at h
  · rcases Steps.bind_eq_error.1 h with h | ⟨place, -, h⟩
    · exact ofRequest_of_place h
    · cases h
  split at h
  · rcases Steps.bind_eq_error.1 h with h | ⟨b, -, h⟩
    · exact ofRequest_of_truth h
    · cases h
  · cases h

theorem ofRequest_of_step {parameter : String × String} (h : r.step labels parameter = .error e) :
    e.OfRequest := by
  obtain ⟨name, value⟩ := parameter
  unfold step at h
  dsimp only at h
  split at h
  · exact ofRequest_of_reserved h
  · split at h
    · rcases Steps.bind_eq_error.1 h with h | ⟨mustExist, -, h⟩
      · exact ofRequest_of_truth h
      · exact ofRequest_of_alter h
    · rcases Steps.bind_eq_error.1 h with h | ⟨term, -, h⟩
      · exact ofRequest_of_term h
      · exact ofRequest_of_alter h
    · cases h

theorem ofRequest_of_applyEquality {equality : String × List String}
    (h : applyEquality labels q equality = .error e) : e.OfRequest := by
  rcases Steps.bind_eq_error.1 h with h | ⟨terms, -, h⟩
  · obtain ⟨raw, -, h⟩ := Steps.mapM_error h
    exact ofRequest_of_term h
  · exact ofRequest_of_view h

theorem ofRequest_of_finish (h : r.finish labels = .error e) : e.OfRequest := by
  rcases Steps.bind_eq_error.1 h with h | ⟨q', -, h⟩
  · obtain ⟨q, equality, -, h⟩ := Steps.foldlM_error h
    exact ofRequest_of_applyEquality h
  · split at h <;> cases h

end Request

/-- **A request is refused by the view or for one of its values.** -/
theorem ViewQuery.ofRequest_of_request {q : ViewQuery} {labels : Prefixes}
    {parameters : List (String × String)} {e : QueryError}
    (h : q.request labels parameters = .error e) : e.OfRequest := by
  rcases Steps.bind_eq_error.1 h with h | ⟨r, -, h⟩
  · obtain ⟨r, parameter, -, h⟩ := Steps.foldlM_error h
    exact Request.ofRequest_of_step h
  · exact Request.ofRequest_of_finish h

end SparqlViews
