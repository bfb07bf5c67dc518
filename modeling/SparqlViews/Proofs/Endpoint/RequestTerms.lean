import SparqlViews.Endpoint.Request
import SparqlViews.Proofs.Term.Token
import SparqlViews.Proofs.View.Paths

/-! # The terms of a request in a query

A request may name any text as a value. Each of them becomes a well-formed term under its entry or is
refused (`RequestValue.wellFormed_of_term`), and the steps of a request put no other terms into the
conditions of its query (`Request.termsFrom_step`, `TermsFrom.request`). In the text of a condition
every term stands in front of a delimiter (`Clause.exists_around_token`), so that it is read there as one token.

* `Filter.terms`: the terms that a condition compares with.
* `request_values_are_tokens`: from raw text to the text of the query.
-/

namespace SparqlViews

/-! ### Terms in the text of a condition -/

/-- The terms that a condition compares with. -/
def Filter.terms : Filter → List Term
  | .equals _ values => values
  | .range _ _ value => [value]
  | .present _ _ => []

namespace Clause

variable {v : View} {root : String} {t : Term}

theorem exists_around_listed (values : List Term) (ht : t ∈ values) : ∃ front rest,
    List.intercalate [',', ' '] (values.map Term.token) = front ++ t.token ++ rest ∧
      ∀ c ∈ rest.head?, c = ',' := by
  induction values with
  | nil => cases ht
  | cons value values ih =>
    cases values with
    | nil =>
      rw [List.mem_singleton] at ht
      subst ht
      exact ⟨[], [], by simp, by simp⟩
    | cons next values =>
      rw [List.map_cons, List.map_cons, List.intercalate_cons_cons, ← List.map_cons]
      rcases List.mem_cons.1 ht with rfl | ht
      · exact ⟨[], [',', ' '] ++ List.intercalate [',', ' '] ((next :: values).map Term.token),
          by rw [List.nil_append, List.append_assoc], by simp⟩
      · obtain ⟨front, rest, heq, hrest⟩ := ih ht
        refine ⟨value.token ++ [',', ' '] ++ front, rest, ?_, hrest⟩
        rw [heq]
        simp only [List.append_assoc]

/-- **Every term of a condition stands in front of a delimiter.** -/
theorem exists_around_token {f : Filter} {text : List Char} (h : filterText root v f = .ok text)
    (ht : t ∈ f.terms) : ∃ front rest, text = front ++ t.token ++ rest ∧ Token.Ends rest := by
  cases f with
  | present path mustExist => cases ht
  | range path comparison value =>
    cases h
    rw [List.mem_singleton.1 ht]
    refine ⟨"FILTER(".toList ++ Element.variableText (Path.toVariable root path) ++
      ' ' :: comparison.symbol.toList ++ [' '], [')'], ?_, ?_⟩
    · simp only [Filter.path, List.append_assoc, List.cons_append, List.nil_append]
    · rintro c hc
      cases hc
      decide
  | equals path values =>
    cases h
    unfold equalsText
    split
    · rename_i value
      rw [List.mem_singleton.1 ht]
      refine ⟨_, [')'], rfl, ?_⟩
      rintro c hc
      cases hc
      decide
    · obtain ⟨front, rest, heq, hrest⟩ := exists_around_listed values ht
      refine ⟨"FILTER(".toList ++ Element.variableText (Path.toVariable root path) ++
        " IN (".toList ++ front, rest ++ "))".toList, ?_, ?_⟩
      · rw [heq]
        simp only [Filter.path, List.append_assoc]
      · intro c hc
        cases rest with
        | nil =>
          cases hc
          decide
        | cons d rest =>
          cases hc
          rw [hrest c rfl]
          decide

end Clause

/-! ### Values of a request -/

/-- The ranges that entries of a view name can be written in a query. -/
def View.HasIriRanges (v : View) : Prop :=
  ∀ p e r, v.find? p = some e → e.property.range = some r → isIri r = true

theorem RequestValue.wellFormed_of_term {q : ViewQuery} {labels : Prefixes} {name raw : String}
    {t : Term} (hq : q.view.HasIriRanges) (h : term q labels name raw = .ok t) : t.WellFormed := by
  obtain ⟨path, -, h⟩ := Steps.bind_eq_ok.1 h
  split at h
  · cases h
  · rename_i e he
    exact Property.wellFormed_of_value (fun r hr => hq path e r he hr) (Steps.mapError_eq_ok.1 h)

namespace ViewQuery

/-- **The conditions of a query have well-formed terms**, apart from those of the query that it was
made from. -/
structure TermsFrom (base q : ViewQuery) : Prop where
  view : q.view = base.view
  filters : ∀ f ∈ q.shape.filters, f ∈ base.shape.filters ∨ ∀ t ∈ f.terms, t.WellFormed

namespace TermsFrom

variable {base q q' : ViewQuery} {labels : Prefixes} {name : String}

theorem refl (q : ViewQuery) : TermsFrom q q := ⟨rfl, fun _ hf => .inl hf⟩

theorem withFilter (h : TermsFrom base q) {f : Filter} (hf : ∀ t ∈ f.terms, t.WellFormed) :
    TermsFrom base (q.withFilter f) where
  view := h.view
  filters g hg := by
    rcases List.mem_append.1 hg with hg | hg
    · exact h.filters g hg
    · rw [List.mem_singleton.1 hg]
      exact .inr hf

theorem filter (h : TermsFrom base q) {values : List Term} (hvalues : ∀ t ∈ values, t.WellFormed)
    (hq : q.filter name values = .ok q') : TermsFrom base q' := by
  obtain ⟨path, -, hq⟩ := Steps.bind_eq_ok.1 hq
  cases hq
  exact h.withFilter hvalues

theorem filterRange (h : TermsFrom base q) {comparison : Comparison} {value : Term}
    (hvalue : value.WellFormed) (hq : q.filterRange name comparison value = .ok q') :
    TermsFrom base q' := by
  obtain ⟨path, -, hq⟩ := Steps.bind_eq_ok.1 hq
  cases hq
  refine h.withFilter fun t ht => ?_
  rwa [List.mem_singleton.1 ht]

theorem filterPresent (h : TermsFrom base q) {mustExist : Bool}
    (hq : q.filterPresent name mustExist = .ok q') : TermsFrom base q' := by
  obtain ⟨path, -, hq⟩ := Steps.bind_eq_ok.1 hq
  cases hq
  exact h.withFilter fun t ht => nomatch ht

theorem sortBy (h : TermsFrom base q) {descending : Bool}
    (hq : q.sortBy name descending = .ok q') : TermsFrom base q' := by
  obtain ⟨path, -, hq⟩ := Steps.bind_eq_ok.1 hq
  cases hq
  exact ⟨h.view, h.filters⟩

end TermsFrom

end ViewQuery

/-! ### Steps of a request -/

namespace Request

open ViewQuery (TermsFrom)

variable {base : ViewQuery} {labels : Prefixes} {r r' : Request}

theorem of_alter {change : Except ViewError ViewQuery} (h : r.alter change = .ok r') :
    ∃ q, change = .ok q ∧ r' = { r with query := q } := by
  cases change with
  | error e => cases h
  | ok q =>
    cases h
    exact ⟨q, rfl, rfl⟩

theorem termsFrom_reserved (hr : TermsFrom base r.query) {name value : String}
    (h : r.reserved name value = .ok r') : TermsFrom base r'.query := by
  unfold reserved at h
  split at h
  · obtain ⟨n, -, h⟩ := Steps.bind_eq_ok.1 h
    cases h
    exact hr
  split at h
  · obtain ⟨n, -, h⟩ := Steps.bind_eq_ok.1 h
    cases h
    exact hr
  split at h
  · obtain ⟨q, hq, rfl⟩ := of_alter h
    exact Steps.foldlM_induction (P := fun _ q => TermsFrom base q) hr
      (fun _ _ _ _ _ hs ht => hs.sortBy ht) hq
  split at h
  · obtain ⟨place, -, h⟩ := Steps.bind_eq_ok.1 h
    cases h
    exact ⟨hr.view, hr.filters⟩
  split at h
  · obtain ⟨b, -, h⟩ := Steps.bind_eq_ok.1 h
    cases h
    exact ⟨hr.view, hr.filters⟩
  · cases h
    exact hr

/-- **What one parameter does to the terms of a query.** -/
theorem termsFrom_step (hbase : base.view.HasIriRanges) (hr : TermsFrom base r.query)
    {parameter : String × String} (h : r.step labels parameter = .ok r') :
    TermsFrom base r'.query := by
  obtain ⟨name, value⟩ := parameter
  unfold step at h
  dsimp only at h
  split at h
  · exact termsFrom_reserved hr h
  · split at h
    · obtain ⟨mustExist, -, h⟩ := Steps.bind_eq_ok.1 h
      obtain ⟨q, hq, rfl⟩ := of_alter h
      exact hr.filterPresent hq
    · obtain ⟨term, hterm, h⟩ := Steps.bind_eq_ok.1 h
      obtain ⟨q, hq, rfl⟩ := of_alter h
      exact hr.filterRange (RequestValue.wellFormed_of_term (hr.view ▸ hbase) hterm) hq
    · cases h
      exact hr

theorem termsFrom_applyEquality (hbase : base.view.HasIriRanges) {q q' : ViewQuery}
    (hq : TermsFrom base q) {equality : String × List String}
    (h : applyEquality labels q equality = .ok q') : TermsFrom base q' := by
  obtain ⟨terms, hterms, h⟩ := Steps.bind_eq_ok.1 h
  refine hq.filter (fun t ht => ?_) (Steps.mapError_eq_ok.1 h)
  obtain ⟨raw, -, hraw⟩ := Steps.mem_of_mapM hterms ht
  exact RequestValue.wellFormed_of_term (hq.view ▸ hbase) hraw

theorem termsFrom_finish (hbase : base.view.HasIriRanges) (hr : TermsFrom base r.query)
    {q : ViewQuery} (h : r.finish labels = .ok q) : TermsFrom base q := by
  obtain ⟨q', hq', h⟩ := Steps.bind_eq_ok.1 h
  have hterms := Steps.foldlM_induction (P := fun _ q => TermsFrom base q) hr
    (fun _ _ _ _ _ hs ht => termsFrom_applyEquality hbase hs ht) hq'
  split at h
  · cases h
    exact ⟨hterms.view, hterms.filters⟩
  · cases h
    exact hterms

end Request

namespace ViewQuery

variable {q q' : ViewQuery} {labels : Prefixes}

/-- **What a request does to the terms of a query.** -/
theorem TermsFrom.request (hq : q.view.HasIriRanges) {parameters : List (String × String)}
    (h : q.request labels parameters = .ok q') : TermsFrom q q' := by
  obtain ⟨r, hr, h⟩ := Steps.bind_eq_ok.1 h
  have hterms := Steps.foldlM_induction (P := fun _ r => TermsFrom q r.query)
    (.refl q) (fun _ _ _ _ _ hs ht => Request.termsFrom_step hq hs ht) hr
  exact Request.termsFrom_finish hq hterms h

end ViewQuery

/-- **The values of a request stay in their places.** A request value that is accepted under an entry
whose range can be written is a well-formed term, and so is every term of a compact text, whatever the
labels stand for. Each term that a request puts into a condition is well-formed, and is one token of
the text of that condition. -/
theorem request_values_are_tokens :
    (∀ (p : Property) (labels : Prefixes) (raw : String) (t : Term),
      (∀ r, p.range = some r → isIri r = true) → p.value labels raw = .ok t → t.WellFormed) ∧
    (∀ (labels : Prefixes) (raw : String) (t : Term), parseTerm labels raw = .ok t →
      t.WellFormed) ∧
    ∀ (q q' : ViewQuery) (labels : Prefixes) (parameters : List (String × String)),
      q.view.HasIriRanges → q.request labels parameters = .ok q' →
      ∀ f ∈ q'.shape.filters, f ∉ q.shape.filters → ∀ t ∈ f.terms, t.WellFormed ∧
        ∀ root text, Clause.filterText root q'.view f = .ok text →
          ∃ front rest, text = front ++ t.token ++ rest ∧
            Token.read? (t.token ++ rest) = some (t.token, rest) := by
  refine ⟨fun _ _ _ _ => Property.wellFormed_of_value, fun _ _ _ => wellFormed_of_parseTerm, ?_⟩
  intro q q' labels parameters hq h f hf hnew t ht
  have hwell := ((ViewQuery.TermsFrom.request hq h).filters f hf).resolve_left hnew t ht
  refine ⟨hwell, fun root text htext => ?_⟩
  obtain ⟨front, rest, heq, hends⟩ := Clause.exists_around_token htext ht
  exact ⟨front, rest, heq, Token.read?_token hwell hends⟩

/-- A value that tries to close its condition is a date that is none. -/
theorem request_values_are_tokens_of_brace :
    let v : View := .leaf { name := "day", iri := "http://e/day", range := some (xsd ++ "date") } .empty
    let q : ViewQuery := { view := v, strategy := .flat }
    let t : Term := .literal "\") \x7d" (.datatype (xsd ++ "date"))
    ∃ q', q.request ∅ [("day", "\") \x7d")] = .ok q' ∧ q'.shape.filters = [.equals ["day"] [t]] ∧
      ∃ text front rest, Clause.filterText "id" v (.equals ["day"] [t]) = .ok text ∧
        text = front ++ t.token ++ rest ∧ Token.read? (t.token ++ rest) = some (t.token, rest) := by
  intro v q t
  have hranges : q.view.HasIriRanges := by
    intro p e r he hr
    have hdate : r = xsd ++ "date" := by
      rcases p with _ | ⟨n, _ | ⟨m, p⟩⟩
      · cases he
      · rw [View.find?, View.get?_leaf] at he
        split at he
        · cases he
          exact (Option.some.inj hr).symm
        · cases he
      · rw [View.find?_cons _ _ (List.cons_ne_nil m p), View.get?_leaf] at he
        split at he
        · cases he
        · cases he
    rw [hdate]
    decide
  obtain ⟨-, -, htokens⟩ := request_values_are_tokens
  obtain ⟨q', hq', hfilters⟩ : ∃ q', q.request ∅ [("day", "\") \x7d")] = .ok q' ∧
    q'.shape.filters = [.equals ["day"] [t]] := ⟨_, rfl, rfl⟩
  have hmem : Filter.equals ["day"] [t] ∈ q'.shape.filters := hfilters ▸ List.mem_singleton_self _
  obtain ⟨-, hread⟩ := htokens q q' ∅ [("day", "\") \x7d")] hranges hq' _ hmem (by simp [q]) t
    (List.mem_singleton_self t)
  obtain ⟨front, rest, heq, htoken⟩ := hread "id" _ rfl
  exact ⟨q', hq', hfilters, _, front, rest, rfl, heq, htoken⟩

end SparqlViews
