import SparqlViews.Proofs.Query.Splicing
import SparqlViews.Proofs.Steps
import SparqlViews.Proofs.View.Lookup
import SparqlViews.Query.Builder

/-! # What can go wrong in rendering

A query is rendered if the paths of its filters and of its order are in the view, and its limits have
a place in it. The triples along a path are there exactly if the path is (`isSome_chainFrom?`); the
template made from a view has a place for everything (`Flat.exists_render`); the inner select asks for
nothing further (`Nested.exists_render`).

* `Flat.obstacle?_eq_none_iff`: when a flat query is not refused.
* `Flat.render_error_cases`: why the rendering of a flat query fails.
* `ViewQuery.ofRendering_of_render`: the kinds of errors of a rendering, whatever the query.
-/

namespace SparqlViews

variable {v : View} {shape : Shape} {root : String}

/-! ### Triples along a path -/

namespace Pattern

theorem chainFrom?_cons (subject : String) (base : Path) (name : String) {p : Path} (hp : p ≠ []) :
    chainFrom? root subject base v (name :: p) =
      (v.get? name).bind fun e => e.sub.bind fun sub =>
        (chainFrom? root (Path.toVariable root (base ++ [name])) (base ++ [name]) sub p).map
          (.triple subject e.property.iri (Path.toVariable root (base ++ [name])) :: ·) := by
  obtain ⟨next, p, rfl⟩ := List.exists_cons_of_ne_nil hp
  simp only [chainFrom?, Option.bind_eq_bind, Option.map_eq_bind]
  rfl

theorem isSome_chainFrom? (root subject : String) (base : Path) (v : View) (p : Path) :
    (chainFrom? root subject base v p).isSome = (v.find? p).isSome := by
  induction p generalizing v subject base with
  | nil => simp [chainFrom?]
  | cons name p ih =>
    rcases eq_or_ne p [] with rfl | hp
    · cases hget : v.get? name <;> simp [chainFrom?, hget]
    · rw [chainFrom?_cons subject base name hp, View.find?_cons v name hp]
      cases v.get? name with
      | none => rfl
      | some e =>
        rw [Option.bind_some, Option.bind_some]
        cases e.sub with
        | none => rfl
        | some sub => rw [Option.bind_some, Option.bind_some, Option.isSome_map, ih]

theorem exists_chain (root : String) {p : Path} (h : (v.find? p).isSome) :
    ∃ elements, chain root v p = .ok elements := by
  rw [← isSome_chainFrom? root root [] v p] at h
  obtain ⟨elements, helements⟩ := Option.isSome_iff_exists.1 h
  exact ⟨elements, by rw [chain, helements]⟩

theorem chain_error {p : Path} {e : ViewError} (h : chain root v p = .error e) :
    e = .pathNotFound p.toDotted := by
  unfold chain at h
  split at h <;> cases h
  rfl

end Pattern

/-! ### Conditions -/

/-- The error says that a path is not there. -/
def ViewError.IsMissingPath (e : ViewError) : Prop := ∃ path, e = .pathNotFound path

theorem Pattern.isMissingPath_of_chain {p : Path} {e : ViewError} (h : chain root v p = .error e) :
    e.IsMissingPath :=
  ⟨p.toDotted, chain_error h⟩

theorem Clause.exists_filterText (root : String) {f : Filter} (h : (v.find? f.path).isSome) :
    ∃ text, filterText root v f = .ok text := by
  cases f with
  | equals path values => exact ⟨_, rfl⟩
  | range path comparison value => exact ⟨_, rfl⟩
  | present path mustExist =>
    obtain ⟨elements, hchain⟩ := Pattern.exists_chain root h
    exact ⟨_, by rw [filterText, show Pattern.chain root v path = .ok elements from hchain]; rfl⟩

theorem Clause.isMissingPath_of_filterText {f : Filter} {e : ViewError}
    (h : filterText root v f = .error e) : e.IsMissingPath := by
  cases f with
  | equals path values => cases h
  | range path comparison value => cases h
  | present path mustExist =>
    rcases Steps.bind_eq_error.1 h with h | ⟨elements, -, h⟩
    · exact Pattern.isMissingPath_of_chain h
    · cases h

/-! ### Flat queries -/

namespace Flat

variable {configured : Option String}

/-- **When a flat query is not refused.** -/
theorem obstacle?_eq_none_iff : obstacle? v shape = none ↔
    ¬ (shape.isPaged = true ∧ v.needsNestedSelect = true) ∧
      ∀ k ∈ shape.sort, v.singleValued k.path = true := by
  unfold obstacle?
  split
  · rename_i hpaged
    simp only [Bool.and_eq_true] at hpaged
    simp [hpaged]
  · rename_i hpaged
    rw [Option.map_eq_none_iff, List.find?_eq_none]
    simp only [Bool.and_eq_true] at hpaged
    simp [hpaged]

theorem exists_conditions (root : String)
    (hfilters : ∀ f ∈ shape.filters, (v.find? f.path).isSome) :
    ∃ texts, conditions v shape root = .ok texts := by
  obtain ⟨texts, htexts⟩ := Steps.exists_mapM fun f hf =>
    Clause.exists_filterText root (hfilters f hf)
  exact ⟨_, by rw [conditions, htexts]; rfl⟩

theorem render_of_obstacle {reason : NestingReason} (h : obstacle? v shape = some reason)
    (configured : Option String) :
    render v shape root configured = .error (.nestedSelectRequired reason) := by
  simp only [render, h]
  rfl

/-! ### What is put into a template -/

/-- The text that a shape is put into. -/
def base (v : View) (shape : Shape) (root : String) (configured : Option String) : List Char :=
  (configured.map String.toList).getD (template v shape root)

/-- **What a shape puts in for each marker**, with the texts of its conditions. -/
def filling (shape : Shape) (root : String) (texts : List (List Char)) : Marker → List (List Char)
  | .inject => (shape.early ++ shape.base.toList).map String.toList
  | .filter => texts
  | .sort => (Clause.orderLine (orderKeys shape root)).toList
  | .modifiers => Clause.pageLines shape.limit shape.offset

theorem render_eq (h : obstacle? v shape = none) : render v shape root configured = do
    let texts ← (conditions v shape root).mapError QueryError.view
    let text ← markersInTurn.foldlM (fun text m => splice m (filling shape root texts m) text)
      (base v shape root configured)
    return Substitution.substituteBody shape.bindings text := by
  cases configured <;>
    simp only [render, h, base, Option.map_none, Option.map_some, Option.getD_none,
      Option.getD_some, markersInTurn, List.foldlM_cons, List.foldlM_nil, filling, bind_pure_comp,
      bind_pure, map_bind]

/-- **Why a rendering fails**: it needs an inner select, a condition has no text, or the text lacks a
marker that there is something to put in for. -/
theorem render_error_cases {e : QueryError} (h : render v shape root configured = .error e) :
    (∃ reason, obstacle? v shape = some reason ∧ e = .nestedSelectRequired reason) ∨
    (∃ d, conditions v shape root = .error d ∧ e = .view d) ∨
    ∃ texts m content, conditions v shape root = .ok texts ∧
      m.isIn (base v shape root configured) = false ∧ filling shape root texts m ≠ [] ∧
      e = .missingMarker m.text content := by
  cases hobstacle : obstacle? v shape with
  | some reason =>
    rw [render_of_obstacle hobstacle] at h
    exact .inl ⟨reason, rfl, (Except.error.inj h).symm⟩
  | none =>
    rw [render_eq hobstacle] at h
    rcases Steps.bind_eq_error.1 h with h | ⟨texts, htexts, h⟩
    · obtain ⟨d, hd, rfl⟩ := Steps.mapError_eq_error.1 h
      exact .inr (.inl ⟨d, hd, rfl⟩)
    rcases Steps.bind_eq_error.1 h with h | ⟨result, -, h⟩
    · obtain ⟨m, -, hout, hgiven, content, he⟩ := splices_error_cases (by decide) h
      exact .inr (.inr ⟨texts, m, content, Steps.mapError_eq_ok.1 htexts, hout, hgiven, he⟩)
    · cases h

/-- **A flat query over the template of its view is rendered unless it is refused.** -/
theorem exists_render (hobstacle : obstacle? v shape = none)
    (hfilters : ∀ f ∈ shape.filters, (v.find? f.path).isSome) :
    ∃ text, render v shape root none = .ok text := by
  obtain ⟨texts, htexts⟩ := exists_conditions root hfilters
  cases hrender : render v shape root none with
  | ok text => exact ⟨text, rfl⟩
  | error e =>
    rcases render_error_cases hrender with ⟨reason, hreason, -⟩ | ⟨d, hd, -⟩ |
      ⟨texts, m, content, -, hout, -, -⟩
    · rw [hobstacle] at hreason
      cases hreason
    · rw [htexts] at hd
      cases hd
    · -- the template of a view has all markers
      exact absurd (hout.symm.trans (isIn_template m v shape root)) (by decide)

end Flat

/-! ### Queries with an inner select -/

namespace Nested

theorem addFilter_cases (v : View) (root : String) (j : Joined) (f : Filter) :
    j.addFilter v root f = .ok j ∨
      j.addFilter v root f = do return (← Pattern.chain root v f.path).foldl Joined.addTriple j := by
  cases f with
  | equals path values => exact .inr rfl
  | range path comparison value => exact .inr rfl
  | present path mustExist => exact .inl rfl

theorem exists_addFilter (root : String) {f : Filter} (h : (v.find? f.path).isSome) (j : Joined) :
    ∃ result, j.addFilter v root f = .ok result := by
  obtain ⟨elements, hchain⟩ := Pattern.exists_chain root h
  rcases addFilter_cases v root j f with heq | heq
  · exact ⟨j, heq⟩
  · exact ⟨_, by rw [heq, hchain]; rfl⟩

theorem exists_addSort (shape : Shape) (root : String) {k : SortKey} (h : (v.find? k.path).isSome)
    (j : Joined) :
    ∃ result, j.addSort v root shape k = .ok result := by
  obtain ⟨elements, hchain⟩ := Pattern.exists_chain root h
  unfold Joined.addSort
  dsimp only
  split
  · exact ⟨j, rfl⟩
  · exact ⟨_, by rw [hchain]; rfl⟩

theorem exists_innerPattern (root : String)
    (hfilters : ∀ f ∈ shape.filters, (v.find? f.path).isSome)
    (hsort : ∀ k ∈ shape.sort, (v.find? k.path).isSome) :
    ∃ elements, innerPattern v shape root = .ok elements := by
  obtain ⟨filtered, hfiltered⟩ := Steps.exists_foldlM
    (fun j f hf => exists_addFilter root (hfilters f hf) j)
    ⟨(shape.early ++ shape.base.toList).map Element.raw ++
      (Pattern.compile .mandatory root v).elements, (Pattern.compile .mandatory root v).vars⟩
  obtain ⟨sorted, hsorted⟩ := Steps.exists_foldlM
    (fun j k hk => exists_addSort shape root (hsort k hk) j) filtered
  obtain ⟨texts, htexts⟩ := Steps.exists_mapM fun f hf =>
    Clause.exists_filterText root (hfilters f hf)
  exact ⟨_, by simp only [innerPattern, hfiltered, hsorted, htexts, bind, Except.bind]; rfl⟩

/-- **A query with an inner select is rendered if its paths are in the view.** -/
theorem exists_render (root : String)
    (hfilters : ∀ f ∈ shape.filters, (v.find? f.path).isSome)
    (hsort : ∀ k ∈ shape.sort, (v.find? k.path).isSome) :
    ∃ text, render v shape root = .ok text := by
  obtain ⟨body, hbody⟩ := exists_innerPattern root hfilters hsort
  exact ⟨_, by simp only [render, renderInner, hbody, bind, Except.bind]; rfl⟩

theorem isMissingPath_of_addFilter {j : Joined} {f : Filter} {e : ViewError}
    (h : j.addFilter v root f = .error e) : e.IsMissingPath := by
  rcases addFilter_cases v root j f with heq | heq
  · rw [heq] at h
    cases h
  · rw [heq] at h
    rcases Steps.bind_eq_error.1 h with h | ⟨elements, -, h⟩
    · exact Pattern.isMissingPath_of_chain h
    · cases h

theorem isMissingPath_of_addSort {j : Joined} {k : SortKey} {e : ViewError}
    (h : j.addSort v root shape k = .error e) : e.IsMissingPath := by
  unfold Joined.addSort at h
  dsimp only at h
  split at h
  · cases h
  · rcases Steps.bind_eq_error.1 h with h | ⟨elements, -, h⟩
    · exact Pattern.isMissingPath_of_chain h
    · cases h

theorem isMissingPath_of_innerPattern {e : ViewError} (h : innerPattern v shape root = .error e) :
    e.IsMissingPath := by
  rcases Steps.bind_eq_error.1 h with h | ⟨filtered, -, h⟩
  · obtain ⟨j, f, -, hf⟩ := Steps.foldlM_error h
    exact isMissingPath_of_addFilter hf
  rcases Steps.bind_eq_error.1 h with h | ⟨sorted, -, h⟩
  · obtain ⟨j, k, -, hk⟩ := Steps.foldlM_error h
    exact isMissingPath_of_addSort hk
  rcases Steps.bind_eq_error.1 h with h | ⟨texts, -, h⟩
  · obtain ⟨f, -, hf⟩ := Steps.mapM_error h
    exact Clause.isMissingPath_of_filterText hf
  · cases h

theorem isMissingPath_of_render {e : ViewError} (h : render v shape root = .error e) :
    e.IsMissingPath := by
  rcases Steps.bind_eq_error.1 h with h | ⟨inner, -, h⟩
  · rcases Steps.bind_eq_error.1 h with h | ⟨body, -, h⟩
    · exact isMissingPath_of_innerPattern h
    · cases h
  · cases h

end Nested

/-! ### Errors of a rendering -/

theorem Flat.isMissingPath_of_conditions {e : ViewError} (h : conditions v shape root = .error e) :
    e.IsMissingPath := by
  rcases Steps.bind_eq_error.1 h with h | ⟨texts, -, h⟩
  · obtain ⟨f, -, hf⟩ := Steps.mapM_error h
    exact Clause.isMissingPath_of_filterText hf
  · cases h

/-- The errors that a rendering may end with. -/
inductive QueryError.OfRendering : QueryError → Prop
  | nested (reason : NestingReason) : OfRendering (.nestedSelectRequired reason)
  | marker (marker content : String) : OfRendering (.missingMarker marker content)
  | path (path : String) : OfRendering (.view (.pathNotFound path))

theorem Flat.ofRendering_of_render {configured : Option String} {e : QueryError}
    (h : render v shape root configured = .error e) : e.OfRendering := by
  rcases render_error_cases h with ⟨reason, -, rfl⟩ | ⟨d, hd, rfl⟩ | ⟨texts, m, content, -, -, -, rfl⟩
  · exact .nested reason
  · obtain ⟨path, rfl⟩ := isMissingPath_of_conditions hd
    exact .path path
  · exact .marker m.text content

/-- **The errors of a rendering**, whatever the query. -/
theorem ViewQuery.ofRendering_of_render {q : ViewQuery} {e : QueryError} (h : q.render = .error e) :
    e.OfRendering := by
  unfold ViewQuery.render at h
  split at h
  · exact Flat.ofRendering_of_render h
  · obtain ⟨d, hd, rfl⟩ := Steps.mapError_eq_error.1 h
    obtain ⟨path, rfl⟩ := Nested.isMissingPath_of_render hd
    exact .path path

/-! ### Building -/

namespace ViewQuery

variable {q : ViewQuery}

theorem build_of_collision (h : (q.view.get? q.root).isSome) :
    q.build = .error (.view (.malformed (.rootCollision q.root))) := by
  rw [build, if_pos h]
  rfl

theorem build_of_no_collision (h : q.view.get? q.root = none) :
    q.build = q.render.map fun text => q.shape.transform (String.ofList text) := by
  rw [build, if_neg (by simp [h])]
  cases q.render <;> rfl

/-- **What is built is what is rendered**, with the transforms applied. -/
theorem exists_render_of_build {text : String} (h : q.build = .ok text) :
    ∃ chars, q.render = .ok chars ∧ text = q.shape.transform (String.ofList chars) := by
  cases hget : q.view.get? q.root with
  | some e =>
    rw [build_of_collision (by rw [hget]; rfl)] at h
    cases h
  | none =>
    rw [build_of_no_collision hget] at h
    cases hrender : q.render with
    | error e =>
      rw [hrender] at h
      cases h
    | ok chars =>
      rw [hrender] at h
      exact ⟨chars, rfl, (Except.ok.inj h).symm⟩

/-- **A built query reports a collision exactly if the view has an entry named like the root.** -/
theorem build_eq_collision_iff :
    q.build = .error (.view (.malformed (.rootCollision q.root))) ↔ (q.view.get? q.root).isSome := by
  refine ⟨fun h => ?_, build_of_collision⟩
  by_contra hget
  rw [build_of_no_collision (Option.not_isSome_iff_eq_none.1 hget)] at h
  cases hrender : q.render with
  | ok text =>
    rw [hrender] at h
    cases h
  | error e =>
    rw [hrender] at h
    cases h
    -- no rendering ends with this error
    cases ofRendering_of_render hrender

end ViewQuery

end SparqlViews
