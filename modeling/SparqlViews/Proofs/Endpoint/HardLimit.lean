import SparqlViews.Proofs.Endpoint.LoadChecks
import SparqlViews.Proofs.Query.LimitLines

/-! # The hard limit of an endpoint

An endpoint with a hard limit answers no request without a limit, and none with a greater one
(`Endpoint.hard_limit_kept`). The last count that a request names is its own limit
(`ViewQuery.limit_of_request`), which the limits of the endpoint cap (`Limits.effective_of_hard`), and the
number so found is written at the places of the page.

* `Request.lastCount?`: the last count under a name.
* `Request.LimitRead`: what is known of the limit after some parameters.
-/

namespace SparqlViews

/-- **A hard limit always counts**: alone, or as the cap of what is asked for. -/
theorem Limits.effective_of_hard {l : Limits} {cap : ℕ} (h : l.hard = some cap)
    (requested : Option ℕ) :
    l.effective requested = some (min ((requested.or l.soft).getD cap) cap) := by
  unfold effective
  rw [h]
  cases requested.or l.soft with
  | none => simp
  | some wanted => rfl

/-! ### The limit that a request asks for -/

namespace Request

variable {labels : Prefixes} {r r' : Request} {done : List (String × String)} {name value : String}

/-- **The count of the last parameter with a name.** -/
def lastCount? (name : String) (parameters : List (String × String)) : Option ℕ :=
  (parameters.reverse.find? fun p => p.1 = name).bind fun p =>
    (RequestValue.count name p.2).toOption

theorem lastCount?_concat_self {n : ℕ} (parameters : List (String × String))
    (h : RequestValue.count name value = .ok n) :
    lastCount? name (parameters ++ [(name, value)]) = some n := by
  rw [lastCount?, List.reverse_concat, List.find?_cons_of_pos (by simp), Option.bind_some, h]
  rfl

theorem lastCount?_concat_of_ne {other : String} (parameters : List (String × String))
    (h : other ≠ name) (value : String) :
    lastCount? name (parameters ++ [(other, value)]) = lastCount? name parameters := by
  rw [lastCount?, List.reverse_concat, List.find?_cons_of_neg (by simpa using h), lastCount?]

/-- **The limit after some parameters** is the last that they give, and each of them is a count. -/
structure LimitRead (done : List (String × String)) (r : Request) : Prop where
  limit : r.limit = lastCount? "_limit" done
  counts : ∀ value, ("_limit", value) ∈ done → ∃ n, RequestValue.count "_limit" value = .ok n

theorem LimitRead.of_ne (h : LimitRead done r) (hname : name ≠ "_limit")
    (hlimit : r'.limit = r.limit) : LimitRead (done ++ [(name, value)]) r' where
  limit := by rw [lastCount?_concat_of_ne done hname, hlimit, h.limit]
  counts value hvalue := by
    rcases List.mem_append.1 hvalue with hvalue | hvalue
    · exact h.counts value hvalue
    · cases List.mem_singleton.1 hvalue
      exact absurd rfl hname

theorem LimitRead.step (h : LimitRead done r) {parameter : String × String}
    (hstep : r.step labels parameter = .ok r') : LimitRead (done ++ [parameter]) r' := by
  obtain ⟨name, value⟩ := parameter
  cases stepOf_step hstep with
  | limit hname hn =>
    subst hname
    refine ⟨(lastCount?_concat_self done hn).symm, fun other hother => ?_⟩
    rcases List.mem_append.1 hother with hother | hother
    · exact h.counts other hother
    · cases List.mem_singleton.1 hother
      exact ⟨_, hn⟩
  | offset hname hn => exact h.of_ne (by rw [hname]; decide) rfl
  | query operations hname hall hrun => exact h.of_ne hname rfl
  | gather hname => exact h.of_ne hname rfl

end Request

/-- **The limit of a request** is the last one that it gives, else that of the query before. -/
theorem ViewQuery.limit_of_request {q q' : ViewQuery} {labels : Prefixes}
    {parameters : List (String × String)} (h : q.request labels parameters = .ok q') :
    q'.shape.limit = (Request.lastCount? "_limit" parameters).or q.shape.limit ∧
      ∀ value, ("_limit", value) ∈ parameters → ∃ n, RequestValue.count "_limit" value = .ok n := by
  obtain ⟨r, hr, h⟩ := Steps.bind_eq_ok.1 h
  have hread := Steps.foldlM_induction (P := Request.LimitRead) ⟨rfl, by simp⟩
    (fun _ _ _ _ _ hs ht => hs.step ht) hr
  have hkept := Steps.foldlM_induction (P := fun _ r => r.query.shape.limit = q.shape.limit) rfl
    (fun _ _ _ _ _ hs ht => Request.kept_step (kept_limit _) hs ht) hr
  obtain ⟨q₁, hq₁, h⟩ := Steps.bind_eq_ok.1 h
  have hq₁limit := Request.kept_equalities (kept_limit _) hkept hq₁
  refine ⟨?_, hread.counts⟩
  rw [← hread.limit]
  split at h
  · cases h
    exact congrArg (r.limit.or ·) hq₁limit
  · rename_i hpage
    cases h
    have hnone : r.limit = none := by
      cases hlimit : r.limit with
      | none => rfl
      | some n => exact absurd (by rw [hlimit]; rfl) hpage
    rw [hnone, Option.none_or]
    exact hq₁limit

/-! ### The limit of an endpoint -/

namespace Endpoint

variable {settings : Settings} {s t later : ViewStore} {d : EndpointDefinition} {e : Endpoint}
  {parameters : List (String × String)} {q : ViewQuery} {cap : ℕ}

/-- **What the query of a request has** from the endpoint and from the parameters. -/
structure Requested (e : Endpoint) (labels : Prefixes) (parameters : List (String × String))
    (q : ViewQuery) : Prop where
  limits : q.limits = e.limits
  root : q.root = e.root
  template : q.template = e.template
  limit : q.shape.limit = Request.lastCount? "_limit" parameters
  bindings : q.shape.bindings = ∅
  transforms : q.shape.transforms = [.declareUsed labels]

theorem requested_of_request (h : (e.request later parameters).1 = .ok q) :
    e.Requested later.prefixes parameters q := by
  rw [request_eq] at h
  obtain ⟨v, -, h⟩ := Steps.bind_eq_ok.1 h
  obtain ⟨hlimit, -⟩ := ViewQuery.limit_of_request h
  obtain ⟨shape, rfl, hbindings, htransforms⟩ := (ViewQuery.asked_of_request h).exists_shape
  exact ⟨rfl, rfl, rfl, hlimit.trans (Option.or_none ..), hbindings, htransforms⟩

namespace Requested

variable {labels : Prefixes}

theorem effectiveLimit (h : e.Requested labels parameters q) (hcap : e.limits.hard = some cap) :
    q.effectiveLimit = some
      (min (((Request.lastCount? "_limit" parameters).or e.limits.soft).getD cap) cap) := by
  rw [ViewQuery.effectiveLimit, h.limits, h.limit, Limits.effective_of_hard hcap]

theorem exists_of_build (h : e.Requested labels parameters q) {text : String}
    (hbuild : q.build = .ok text) :
    ∃ declarations body, q.render = .ok body ∧ text.toList = declarations ++ body := by
  obtain ⟨body, hbody, rfl⟩ := ViewQuery.exists_render_of_build hbuild
  obtain ⟨declarations, hdeclared⟩ : ∃ declarations, (Transform.declareUsed labels).apply
      (String.ofList body) = declarations ++ String.ofList body := ⟨_, rfl⟩
  refine ⟨declarations.toList, body, hbody, ?_⟩
  rw [Shape.transform, h.transforms, List.foldl_cons, List.foldl_nil, hdeclared,
    String.toList_append, String.toList_ofList]

end Requested

/-- An endpoint of stations with limits of its own. -/
def cappedDefinition : EndpointDefinition :=
  { templateDefinition with softLimit := some 20, limit := some 50 }

end Endpoint

end SparqlViews
