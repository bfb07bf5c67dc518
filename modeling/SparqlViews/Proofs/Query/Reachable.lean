import SparqlViews.Proofs.Query.Rendering

/-! # Queries made by operations

A query over a view is made by a run of operations on one that asks for nothing. Every operation that
succeeds keeps the paths of the query in the view (`Grounded.perform`), and so does a run
(`Grounded.run`); therefore a query that is reached fails to be built for three reasons only
(`build_of_run`): an entry is named like the root, or the flat strategy would cut the rows of an
entity apart, or it would order entities by one of many values.

* `Operation`, `perform`, `run`: the operations, one and in turn.
* `CutsRows`, `SortsByMany`: what the flat strategy cannot do.
-/

namespace SparqlViews.ViewQuery

/-! ### Operations -/

/-- **An operation on a query.** -/
inductive Operation where
  | filter (name : String) (values : List Term)
  | filterRange (name : String) (comparison : Comparison) (value : Term)
  | filterPresent (name : String) (mustExist : Bool)
  | sortBy (name : String) (descending : Bool)
  | page (limit offset : Option ℕ)
  | bind (name : String) (value : Term)
  | constrain (text : String)
  | constrainLate (text : String)
  | near (latitude longitude radius : Float)
  | withBase (text : String)
  | project (name : String)
  | distinct (b : Bool)
  | withTransform (t : Transform)
  | withRoot (name : String)
  | withLimits (limits : Limits)
  | withLookup (lookup : Lookup)

/-- The query after an operation. -/
def perform (q : ViewQuery) : Operation → Except ViewError ViewQuery
  | .filter name values => q.filter name values
  | .filterRange name comparison value => q.filterRange name comparison value
  | .filterPresent name mustExist => q.filterPresent name mustExist
  | .sortBy name descending => q.sortBy name descending
  | .page limit offset => .ok (q.page limit offset)
  | .bind name value => .ok (q.bind name value)
  | .constrain text => .ok (q.constrain text)
  | .constrainLate text => .ok (q.constrainLate text)
  | .near latitude longitude radius => .ok (q.near latitude longitude radius)
  | .withBase text => .ok (q.withBase text)
  | .project name => .ok (q.project name)
  | .distinct b => .ok (q.distinct b)
  | .withTransform t => .ok (q.withTransform t)
  | .withRoot name => .ok { q with root := name }
  | .withLimits limits => .ok { q with limits }
  | .withLookup lookup => .ok { q with lookup }

/-- The query after operations in turn, the first of which to fail ends the run. -/
def run (q : ViewQuery) (operations : List Operation) : Except ViewError ViewQuery :=
  operations.foldlM perform q

/-- The query that asks for nothing. -/
def start (v : View) (strategy : Strategy) : ViewQuery := { view := v, strategy }

variable {v : View} {strategy : Strategy} {q q' : ViewQuery}

/-! ### What operations keep -/

/-- **A query over a view whose paths lie in it**, with no template of its own. -/
structure Grounded (v : View) (strategy : Strategy) (q : ViewQuery) : Prop where
  view : q.view = v
  strategy : q.strategy = strategy
  template : q.template = none
  filters : ∀ f ∈ q.shape.filters, f.path ∈ v.paths
  sort : ∀ k ∈ q.shape.sort, k.path ∈ v.paths

namespace Grounded

theorem start (v : View) (strategy : Strategy) : Grounded v strategy (start v strategy) where
  view := rfl
  strategy := rfl
  template := rfl
  filters := by simp [ViewQuery.start]
  sort := by simp [ViewQuery.start]

theorem mem_paths (hv : v.WellFormed) (h : Grounded v strategy q) {name : String} {p : Path}
    (hp : q.resolve name = .ok p) : p ∈ v.paths :=
  View.mem_paths_of_resolve hv (by rwa [ViewQuery.resolve, h.view] at hp)

theorem mem_paths_of_filterable (hv : v.WellFormed) (h : Grounded v strategy q) {name : String}
    {p : Path} (hp : q.filterablePath name = .ok p) : p ∈ v.paths := by
  obtain ⟨path, hpath, hp⟩ := Steps.bind_eq_ok.1 hp
  have hmem := h.mem_paths hv hpath
  split at hp
  · split at hp <;> cases hp
    exact hmem
  · cases hp

theorem withFilter (h : Grounded v strategy q) {f : Filter} (hf : f.path ∈ v.paths) :
    Grounded v strategy (q.withFilter f) where
  view := h.view
  strategy := h.strategy
  template := h.template
  filters g hg := by
    rcases List.mem_append.1 hg with hg | hg
    · exact h.filters g hg
    · rwa [List.mem_singleton.1 hg]
  sort := h.sort

theorem sortBy (hv : v.WellFormed) (h : Grounded v strategy q) {name : String} {descending : Bool}
    (hq : q.sortBy name descending = .ok q') : Grounded v strategy q' := by
  obtain ⟨path, hpath, hq⟩ := Steps.bind_eq_ok.1 hq
  cases hq
  refine ⟨h.view, h.strategy, h.template, h.filters, fun k hk => ?_⟩
  rcases List.mem_append.1 hk with hk | hk
  · exact h.sort k hk
  · rw [List.mem_singleton.1 hk]
    exact h.mem_paths hv hpath

/-- **What an operation keeps.** -/
theorem perform (hv : v.WellFormed) (h : Grounded v strategy q) {operation : Operation}
    (hq : q.perform operation = .ok q') : Grounded v strategy q' := by
  cases operation with
  | filter name values =>
    obtain ⟨path, hpath, hq⟩ := Steps.bind_eq_ok.1 hq
    cases hq
    exact h.withFilter (h.mem_paths_of_filterable hv hpath)
  | filterRange name comparison value =>
    obtain ⟨path, hpath, hq⟩ := Steps.bind_eq_ok.1 hq
    cases hq
    exact h.withFilter (h.mem_paths_of_filterable hv hpath)
  | filterPresent name mustExist =>
    obtain ⟨path, hpath, hq⟩ := Steps.bind_eq_ok.1 hq
    cases hq
    exact h.withFilter (h.mem_paths_of_filterable hv hpath)
  | sortBy name descending => exact h.sortBy hv hq
  | project name =>
    cases hq
    -- a variable that is selected already changes nothing
    have hshape : ∀ s : Shape,
        (s.project name).filters = s.filters ∧ (s.project name).sort = s.sort := by
      intro s
      unfold Shape.project
      split <;> exact ⟨rfl, rfl⟩
    exact ⟨h.view, h.strategy, h.template, fun f hf => h.filters f ((hshape q.shape).1 ▸ hf),
      fun k hk => h.sort k ((hshape q.shape).2 ▸ hk)⟩
  | _ =>
    cases hq
    exact ⟨h.view, h.strategy, h.template, h.filters, h.sort⟩

/-- **What a run keeps.** -/
theorem run (hv : v.WellFormed) (h : Grounded v strategy q) {operations : List Operation}
    (hq : q.run operations = .ok q') : Grounded v strategy q' :=
  Steps.foldlM_induction (P := fun _ s => Grounded v strategy s) h
    (fun _ _ _ _ _ hs ht => hs.perform hv ht) hq

end Grounded

/-! ### What the flat strategy cannot do -/

/-- A page would be cut out of rows that are no entities. -/
def CutsRows (q : ViewQuery) : Prop :=
  (q.effectiveLimit.isSome ∨ ∃ n, q.shape.offset = some n ∧ 0 < n) ∧
    q.view.needsNestedSelect = true

/-- Entities would be ordered by one of many values. -/
def SortsByMany (q : ViewQuery) : Prop := ∃ k ∈ q.shape.sort, q.view.HasMulti k.path

theorem isPaged_renderedShape : q.renderedShape.isPaged = true ↔
    q.effectiveLimit.isSome ∨ ∃ n, q.shape.offset = some n ∧ 0 < n := by
  rw [Shape.isPaged, Bool.or_eq_true, Option.any_eq_true]
  simp only [renderedShape, decide_eq_true_eq, gt_iff_lt]

namespace Grounded

theorem isSome_find? (hv : v.WellFormed) {p : Path} (hp : p ∈ v.paths) : (v.find? p).isSome :=
  (View.mem_paths_iff hv).1 hp

theorem exists_multi_iff (hv : v.WellFormed) (h : Grounded v strategy q) :
    q.SortsByMany ↔ ¬ ∀ k ∈ q.renderedShape.sort, v.singleValued k.path = true := by
  have hkey : ∀ k ∈ q.shape.sort, ¬ v.singleValued k.path = true ↔ v.HasMulti k.path := by
    intro k hk
    rw [Bool.not_eq_true]
    exact View.singleValued_eq_false_iff (isSome_find? hv (h.sort k hk))
  rw [SortsByMany, h.view]
  push Not
  exact exists_congr fun k => and_congr_right fun hk => (hkey k hk).symm

/-- **The flat strategy refuses a query exactly for what it cannot do.** -/
theorem obstacle?_eq_none_iff (hv : v.WellFormed) (h : Grounded v strategy q) :
    Flat.obstacle? v q.renderedShape = none ↔ ¬ (q.CutsRows ∨ q.SortsByMany) := by
  rw [Flat.obstacle?_eq_none_iff, h.exists_multi_iff hv, CutsRows, h.view, isPaged_renderedShape,
    not_or, not_not]

theorem render_cases (hv : v.WellFormed) (h : Grounded v strategy q) :
    (strategy = .flat ∧ (q.CutsRows ∨ q.SortsByMany) ∧
      ∃ reason, q.render = .error (.nestedSelectRequired reason)) ∨
    (¬ (strategy = .flat ∧ (q.CutsRows ∨ q.SortsByMany)) ∧ ∃ text, q.render = .ok text) := by
  have hfilters : ∀ f ∈ q.renderedShape.filters, (v.find? f.path).isSome :=
    fun f hf => isSome_find? hv (h.filters f hf)
  have hsort : ∀ k ∈ q.renderedShape.sort, (v.find? k.path).isSome :=
    fun k hk => isSome_find? hv (h.sort k hk)
  cases strategy with
  | flat =>
    have hrender : q.render = Flat.render v q.renderedShape q.root none := by
      rw [ViewQuery.render, h.strategy, h.view, h.template]
    rw [hrender]
    cases hobstacle : Flat.obstacle? v q.renderedShape with
    | none =>
      have hfree := (h.obstacle?_eq_none_iff hv).1 hobstacle
      exact .inr ⟨fun hflat => hfree hflat.2, Flat.exists_render hobstacle hfilters⟩
    | some reason =>
      have hstuck : q.CutsRows ∨ q.SortsByMany := by
        by_contra hfree
        rw [(h.obstacle?_eq_none_iff hv).2 hfree] at hobstacle
        cases hobstacle
      exact .inl ⟨rfl, hstuck, reason, Flat.render_of_obstacle hobstacle none⟩
  | nestedSelect =>
    obtain ⟨text, htext⟩ := Nested.exists_render q.root hfilters hsort
    refine .inr ⟨fun hflat => Strategy.noConfusion hflat.1, text, ?_⟩
    rw [ViewQuery.render, h.strategy, h.view]
    exact congrArg (Except.mapError QueryError.view) htext

end Grounded

theorem Grounded.fits_forView (h : Grounded v (.forView v) q) :
    ¬ (Strategy.forView v = .flat ∧ (q.CutsRows ∨ q.SortsByMany)) := by
  rintro ⟨hflat, hstuck⟩
  have hsimple : v.needsNestedSelect = false := by
    cases hneeds : v.needsNestedSelect with
    | false => rfl
    | true => rw [Strategy.forView, if_pos hneeds] at hflat; cases hflat
  rcases hstuck with ⟨-, hneeds⟩ | ⟨k, -, hmulti⟩
  · rw [h.view, hsimple] at hneeds
    cases hneeds
  · rw [h.view] at hmulti
    obtain ⟨p, e, -, -, he, hmany⟩ := hmulti
    rw [View.needsNestedSelect_of_multi he hmany] at hsimple
    cases hsimple

/-! ### Building what is reached -/

/-- The three ways in which building a query that is reached ends. -/
inductive Grounded.Ending (v : View) (strategy : Strategy) (q : ViewQuery) : Prop
  | collision (h : (v.get? q.root).isSome)
      (build : q.build = .error (.view (.malformed (.rootCollision q.root))))
  | refused (h : v.get? q.root = none) (flat : strategy = .flat)
      (stuck : q.CutsRows ∨ q.SortsByMany) (reason : NestingReason)
      (build : q.build = .error (.nestedSelectRequired reason))
  | built (h : v.get? q.root = none)
      (fits : ¬ (strategy = .flat ∧ (q.CutsRows ∨ q.SortsByMany))) (text : String)
      (build : q.build = .ok text)

theorem Grounded.ending (hv : v.WellFormed) (h : Grounded v strategy q) : Ending v strategy q := by
  cases hget : v.get? q.root with
  | some e =>
    have hsome : (q.view.get? q.root).isSome := by rw [h.view, hget]; rfl
    exact .collision (by rw [hget]; rfl) (build_of_collision hsome)
  | none =>
    have hbuild := build_of_no_collision (h.view ▸ hget)
    rcases h.render_cases hv with ⟨hflat, hstuck, reason, hrender⟩ | ⟨hfits, text, hrender⟩
    · exact .refused hget hflat hstuck reason (by rw [hbuild, hrender]; rfl)
    · exact .built hget hfits (q.shape.transform (String.ofList text)) (by rw [hbuild, hrender]; rfl)

/-- **What is reached by operations can be built, but for three reasons.** All its paths lie in the
view. It is built unless an entry is named like the root, or the strategy is flat and would cut the
rows of an entity apart or order by one of many values. The first of these is reported as such, the
other two as the need for an inner select, and there are no other errors. -/
theorem build_of_run (hv : v.WellFormed) {operations : List Operation}
    (h : (start v strategy).run operations = .ok q) :
    q.view = v ∧ q.strategy = strategy ∧
    (∀ f ∈ q.shape.filters, f.path ∈ v.paths) ∧ (∀ k ∈ q.shape.sort, k.path ∈ v.paths) ∧
    ((∃ text, q.build = .ok text) ↔
      v.get? q.root = none ∧ (strategy = .flat → ¬ q.CutsRows ∧ ¬ q.SortsByMany)) ∧
    ((v.get? q.root).isSome → q.build = .error (.view (.malformed (.rootCollision q.root)))) ∧
    (v.get? q.root = none → strategy = .flat → q.CutsRows ∨ q.SortsByMany →
      ∃ reason, q.build = .error (.nestedSelectRequired reason)) ∧
    (∀ path, q.build ≠ .error (.view (.pathNotFound path))) ∧
    (∀ marker content, q.build ≠ .error (.missingMarker marker content)) ∧
    (strategy = .nestedSelect → ∀ e, q.build = .error e →
      e = .view (.malformed (.rootCollision q.root)) ∧ (v.get? q.root).isSome) ∧
    (strategy = .forView v → ∀ reason, q.build ≠ .error (.nestedSelectRequired reason)) := by
  have hq := (Grounded.start v strategy).run hv h
  refine ⟨hq.view, hq.strategy, hq.filters, hq.sort, ?_⟩
  cases hq.ending hv with
  | collision hsome hbuild =>
    have hne : v.get? q.root ≠ none := Option.isSome_iff_ne_none.1 hsome
    simp [hbuild, hsome, hne]
  | refused hnone hflat hstuck reason hbuild =>
    subst hflat
    have hforView : Strategy.flat ≠ .forView v := fun heq =>
      (heq ▸ hq).fits_forView ⟨heq.symm, hstuck⟩
    have hnot : ¬ (¬ q.CutsRows ∧ ¬ q.SortsByMany) := by rwa [← not_or, not_not]
    simp [hbuild, hnone, hforView, hnot]
  | built hnone hfits text hbuild =>
    rw [not_and, not_or] at hfits
    have hiff : (∃ text, q.build = .ok text) ↔
        v.get? q.root = none ∧ (strategy = .flat → ¬ q.CutsRows ∧ ¬ q.SortsByMany) :=
      ⟨fun _ => ⟨hnone, hfits⟩, fun _ => ⟨text, hbuild⟩⟩
    have hfree : strategy = .flat → ¬ (q.CutsRows ∨ q.SortsByMany) := fun hflat =>
      not_or.2 (hfits hflat)
    refine ⟨hiff, ?_, fun _ hflat hstuck => absurd hstuck (hfree hflat), ?_⟩
    · simp [hnone]
    · simp [hbuild]

/-- A view of stations, each with a name and areas, if it has any, with labels. -/
def stationView : View :=
  .leaf { name := "name", iri := "http://e/name" }
    (.nested { name := "area", iri := "http://e/area", optional := true }
      (.leaf { name := "label", iri := "http://e/label", multi := true } .empty) .empty)

/-- An order by the labels of areas needs an inner select, and can be built with it. -/
theorem build_of_run_by_label :
    let operations : List Operation := [.sortBy "label" true, .filterPresent "area.label" true,
      .withRoot "station"]
    (∃ q, (start stationView .flat).run operations = .ok q ∧
      ∃ reason, q.build = .error (.nestedSelectRequired reason)) ∧
    ∃ q, (start stationView (.forView stationView)).run operations = .ok q ∧
      ∃ text, q.build = .ok text := by
  intro operations
  have hrun : ∀ strategy, ∃ q, (start stationView strategy).run operations = .ok q ∧
      q.root = "station" ∧ q.shape.sort = [⟨["area", "label"], true⟩] := by
    intro strategy
    exact ⟨_, rfl, rfl, rfl⟩
  have hfree : stationView.get? "station" = none := rfl
  constructor
  · obtain ⟨q, hq, hroot, hsort⟩ := hrun .flat
    obtain ⟨hview, -, -, -, -, -, hrefused, -⟩ := build_of_run (by decide) hq
    have hmulti : stationView.HasMulti ["area", "label"] :=
      ⟨["area", "label"], _, List.cons_ne_nil _ _, List.prefix_rfl, rfl, rfl⟩
    refine ⟨q, hq, hrefused (hroot ▸ hfree) rfl (.inr ⟨⟨["area", "label"], true⟩, ?_, ?_⟩)⟩
    · rw [hsort]
      exact List.mem_singleton_self _
    · rwa [hview]
  · obtain ⟨q, hq, hroot, -⟩ := hrun (.forView stationView)
    obtain ⟨-, -, -, -, hbuilt, -⟩ := build_of_run (by decide) hq
    exact ⟨q, hq, hbuilt.2 ⟨hroot ▸ hfree, fun hflat => absurd hflat (by decide)⟩⟩

end SparqlViews.ViewQuery
