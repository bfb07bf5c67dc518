import SparqlViews.Proofs.Endpoint.RequestAnswer

/-! # What a request leaves as it is

A request changes of its query what its parameters name, and nothing else but the page
(`request_changes_what_it_names`). One parameter keeps all but the part of its own name (`Request.frame_step`),
and so does a run of parameters with the parts of all their names.

The page is set as a whole: a request that names a limit and no offset has none, even where the query had
one before (`offset_lost_under_new_limit`), while a request that names an offset and no limit keeps the limit.

* `ViewQuery.Frame`: a query with nothing changed but the parts that some names stand for.
* `Request.PageOf`: the parts of the page that a request has read.
-/

namespace SparqlViews

namespace ViewQuery

variable {q q' q'' : ViewQuery} {names more : List String}

/-! ### Frames -/

/-- **A query that differs in the named parts alone.** Conditions, keys and patterns are added behind those
that were there. -/
structure Frame (names : List String) (q q' : ViewQuery) : Prop where
  settings : ∃ shape, q' = { q with shape }
  base : q'.shape.base = q.shape.base
  late : q'.shape.late = q.shape.late
  bindings : q'.shape.bindings = q.shape.bindings
  projection : q'.shape.projection = q.shape.projection
  transforms : q'.shape.transforms = q.shape.transforms
  limit : q'.shape.limit = q.shape.limit
  offset : q'.shape.offset = q.shape.offset
  filters : q.shape.filters <+: q'.shape.filters
  early : q.shape.early <+: q'.shape.early ∧ ("_near" ∉ names → q'.shape.early = q.shape.early)
  sort : q.shape.sort <+: q'.shape.sort ∧ ("_sort" ∉ names → q'.shape.sort = q.shape.sort)
  distinct : "_distinct" ∉ names → q'.shape.distinct = q.shape.distinct

namespace Frame

theorem refl (names : List String) (q : ViewQuery) : Frame names q q where
  settings := ⟨q.shape, rfl⟩
  base := rfl
  late := rfl
  bindings := rfl
  projection := rfl
  transforms := rfl
  limit := rfl
  offset := rfl
  filters := List.prefix_rfl
  early := ⟨List.prefix_rfl, fun _ => rfl⟩
  sort := ⟨List.prefix_rfl, fun _ => rfl⟩
  distinct _ := rfl

theorem trans (h : Frame names q q') (h' : Frame names q' q'') : Frame names q q'' where
  settings := by
    obtain ⟨shape, rfl⟩ := h.settings
    obtain ⟨shape', rfl⟩ := h'.settings
    exact ⟨shape', rfl⟩
  base := h'.base.trans h.base
  late := h'.late.trans h.late
  bindings := h'.bindings.trans h.bindings
  projection := h'.projection.trans h.projection
  transforms := h'.transforms.trans h.transforms
  limit := h'.limit.trans h.limit
  offset := h'.offset.trans h.offset
  filters := h.filters.trans h'.filters
  early := ⟨h.early.1.trans h'.early.1, fun hn => (h'.early.2 hn).trans (h.early.2 hn)⟩
  sort := ⟨h.sort.1.trans h'.sort.1, fun hn => (h'.sort.2 hn).trans (h.sort.2 hn)⟩
  distinct hn := (h'.distinct hn).trans (h.distinct hn)

theorem mono (h : Frame names q q') (hsub : names ⊆ more) : Frame more q q' where
  settings := h.settings
  base := h.base
  late := h.late
  bindings := h.bindings
  projection := h.projection
  transforms := h.transforms
  limit := h.limit
  offset := h.offset
  filters := h.filters
  early := ⟨h.early.1, fun hn => h.early.2 fun hmem => hn (hsub hmem)⟩
  sort := ⟨h.sort.1, fun hn => h.sort.2 fun hmem => hn (hsub hmem)⟩
  distinct hn := h.distinct fun hmem => hn (hsub hmem)

theorem withFilter (names : List String) (q : ViewQuery) (f : Filter) :
    Frame names q (q.withFilter f) :=
  { refl names q with settings := ⟨_, rfl⟩, filters := List.prefix_append _ _ }

theorem of_filter (make : Path → Filter) {name : String}
    (h : (do return q.withFilter (make (← q.filterablePath name)) : Except ViewError ViewQuery) =
      .ok q') (names : List String) : Frame names q q' := by
  obtain ⟨path, -, h⟩ := Steps.bind_eq_ok.1 h
  cases h
  exact withFilter names q (make path)

theorem of_sortBy {name : String} {descending : Bool} (h : q.sortBy name descending = .ok q') :
    Frame ["_sort"] q q' := by
  obtain ⟨path, -, h⟩ := Steps.bind_eq_ok.1 h
  cases h
  exact { refl ["_sort"] q with
    settings := ⟨_, rfl⟩, sort := ⟨List.prefix_append _ _, fun hn => absurd List.mem_cons_self hn⟩ }

theorem of_near (q : ViewQuery) (latitude longitude radius : Float) :
    Frame ["_near"] q (q.near latitude longitude radius) :=
  { refl ["_near"] q with
    settings := ⟨_, rfl⟩, early := ⟨List.prefix_append _ _, fun hn => absurd List.mem_cons_self hn⟩ }

theorem of_distinct (q : ViewQuery) (b : Bool) : Frame ["_distinct"] q (q.distinct b) :=
  { refl ["_distinct"] q with
    settings := ⟨_, rfl⟩, distinct := fun hn => absurd List.mem_cons_self hn }

end Frame

end ViewQuery

/-! ### Steps of a request -/

namespace Request

open ViewQuery (Frame)

variable {labels : Prefixes} {r r' : Request} {name value : String}
  {done : List (String × String)} {q q' : ViewQuery}

/-- **The parts of the page that have been read** are those that some names stand for. -/
structure PageOf (names : List String) (r : Request) : Prop where
  limit : r.limit.isSome ↔ "_limit" ∈ names
  offset : r.offset.isSome ↔ "_offset" ∈ names

/-- **One parameter**: it changes the part of the query that its name stands for, or one of the page. -/
structure FrameStep (name : String) (r r' : Request) : Prop where
  query : Frame [name] r.query r'.query
  limit : r'.limit.isSome ↔ r.limit.isSome ∨ name = "_limit"
  offset : r'.offset.isSome ↔ r.offset.isSome ∨ name = "_offset"

theorem FrameStep.of_query (hlimit : name ≠ "_limit") (hoffset : name ≠ "_offset")
    (h : Frame [name] r.query q) : FrameStep name r { r with query := q } where
  query := h
  limit := by simp [hlimit]
  offset := by simp [hoffset]

theorem frame_reserved (h : r.reserved name value = .ok r') : FrameStep name r r' := by
  unfold reserved at h
  split at h
  · rename_i hname
    obtain ⟨n, -, h⟩ := Steps.bind_eq_ok.1 h
    cases h
    subst hname
    exact ⟨.refl _ _, by simp, by simp⟩
  rename_i hlimit
  split at h
  · rename_i hname
    obtain ⟨n, -, h⟩ := Steps.bind_eq_ok.1 h
    cases h
    subst hname
    exact ⟨.refl _ _, by simp, by simp⟩
  rename_i hoffset
  split at h
  · rename_i hname
    obtain ⟨q, hq, rfl⟩ := of_alter h
    subst hname
    exact .of_query hlimit hoffset (Steps.foldlM_induction (P := fun _ s => Frame ["_sort"] r.query s)
      (.refl _ _) (fun _ _ _ _ _ hs ht => hs.trans (.of_sortBy ht)) hq)
  split at h
  · rename_i hname
    obtain ⟨⟨latitude, longitude, radius⟩, -, h⟩ := Steps.bind_eq_ok.1 h
    cases h
    subst hname
    exact .of_query hlimit hoffset (.of_near r.query latitude longitude radius)
  split at h
  · rename_i hname
    obtain ⟨b, -, h⟩ := Steps.bind_eq_ok.1 h
    cases h
    subst hname
    exact .of_query hlimit hoffset (.of_distinct r.query b)
  · cases h
    exact .of_query hlimit hoffset (.refl _ _)

/-- **What one parameter leaves as it is.** -/
theorem frame_step (h : r.step labels (name, value) = .ok r') : FrameStep name r r' := by
  unfold step at h
  dsimp only at h
  split at h
  · exact frame_reserved h
  · rename_i hplain
    have hne : name ≠ "_limit" ∧ name ≠ "_offset" := by
      constructor
      · rintro rfl
        exact hplain (by decide)
      · rintro rfl
        exact hplain (by decide)
    split at h
    · rename_i under _ _
      obtain ⟨mustExist, -, h⟩ := Steps.bind_eq_ok.1 h
      obtain ⟨q, hq, rfl⟩ := of_alter h
      exact .of_query hne.1 hne.2 (.of_filter (.present · mustExist) hq _)
    · rename_i comparison under _ _
      obtain ⟨term, -, h⟩ := Steps.bind_eq_ok.1 h
      obtain ⟨q, hq, rfl⟩ := of_alter h
      exact .of_query hne.1 hne.2 (.of_filter (.range · comparison term) hq _)
    · cases h
      exact ⟨.refl _ _, by simp [hne.1], by simp [hne.2]⟩

theorem PageOf.step (h : PageOf (done.map (·.1)) r) (hstep : FrameStep name r r') (value : String) :
    PageOf ((done ++ [(name, value)]).map (·.1)) r' where
  limit := by
    rw [hstep.limit, h.limit, List.map_append, List.mem_append, List.map_singleton,
      List.mem_singleton, eq_comm]
  offset := by
    rw [hstep.offset, h.offset, List.map_append, List.mem_append, List.map_singleton,
      List.mem_singleton, eq_comm]

/-- **What the parameters of a request leave as it is.** -/
theorem frame_foldlM_step {parameters : List (String × String)}
    (h : parameters.foldlM (step labels) { query := q } = .ok r) :
    Frame (parameters.map (·.1)) q r.query ∧ PageOf (parameters.map (·.1)) r := by
  refine Steps.foldlM_induction (f := step labels) (P := fun done r =>
    Frame (done.map (·.1)) q r.query ∧ PageOf (done.map (·.1)) r)
    ⟨.refl _ _, by simp, by simp⟩ ?_ h
  rintro done ⟨name, value⟩ r r' - ⟨hframe, hpage⟩ ht
  have hstep := frame_step ht
  refine ⟨(hframe.mono fun n hn => ?_).trans (hstep.query.mono fun n hn => ?_),
    hpage.step hstep value⟩
  · rw [List.map_append]
    exact List.mem_append_left _ hn
  · rw [List.map_append]
    exact List.mem_append_right _ hn

theorem frame_equalities {equalities : List (String × List String)} (names : List String)
    (h : equalities.foldlM (applyEquality labels) q = .ok q') : Frame names q q' :=
  Steps.foldlM_induction (P := fun _ s => Frame names q s) (.refl _ _)
    (fun _ equality _ _ _ hs ht => by
      obtain ⟨terms, -, ht⟩ := Steps.bind_eq_ok.1 ht
      exact hs.trans (.of_filter (.equals · terms) (Steps.mapError_eq_ok.1 ht) names)) h

end Request

/-- **A request changes what it names.** The settings of the query, its base and its late patterns, its
bindings, further variables and transforms stay, and all that was asked before stays in front; the patterns,
the order and the distinctness stay if the request does not name them. Without a limit the limit stays.
Without an offset the offset stays if there is no limit either; with a limit there is none. -/
theorem request_changes_what_it_names {q q' : ViewQuery} {labels : Prefixes}
    {parameters : List (String × String)} (h : q.request labels parameters = .ok q') :
    let names := parameters.map (·.1)
    (q'.view = q.view ∧ q'.strategy = q.strategy ∧ q'.limits = q.limits ∧ q'.root = q.root ∧
      q'.lookup = q.lookup ∧ q'.template = q.template) ∧
    (q'.shape.base = q.shape.base ∧ q'.shape.late = q.shape.late ∧
      q'.shape.bindings = q.shape.bindings ∧ q'.shape.projection = q.shape.projection ∧
      q'.shape.transforms = q.shape.transforms) ∧
    (q.shape.filters <+: q'.shape.filters ∧ q.shape.early <+: q'.shape.early ∧
      q.shape.sort <+: q'.shape.sort) ∧
    ("_near" ∉ names → q'.shape.early = q.shape.early) ∧
    ("_sort" ∉ names → q'.shape.sort = q.shape.sort) ∧
    ("_distinct" ∉ names → q'.shape.distinct = q.shape.distinct) ∧
    ("_limit" ∉ names → q'.shape.limit = q.shape.limit) ∧
    ("_offset" ∉ names →
      q'.shape.offset = if "_limit" ∈ names then none else q.shape.offset) := by
  intro names
  obtain ⟨r, hr, hfinish⟩ := Steps.bind_eq_ok.1 h
  obtain ⟨hframe, hpage⟩ := Request.frame_foldlM_step hr
  obtain ⟨q₁, hq₁, rfl⟩ := Request.finish_eq_ok.1 hfinish
  have hall : ViewQuery.Frame names q q₁ := hframe.trans (Request.frame_equalities names hq₁)
  obtain ⟨shape, rfl⟩ := hall.settings
  have hnone : ∀ {n : Option ℕ}, ¬ n.isSome = true → n = none := by simp
  unfold Request.paged
  -- the page is set only if the request names a part of it, but then both parts are
  split
  · refine ⟨⟨rfl, rfl, rfl, rfl, rfl, rfl⟩, ⟨hall.base, hall.late, hall.bindings, hall.projection,
      hall.transforms⟩, ⟨hall.filters, hall.early.1, hall.sort.1⟩, hall.early.2, hall.sort.2,
      hall.distinct, fun hlimit => ?_, fun hoffset => ?_⟩
    · have hr : r.limit = none := hnone fun hsome => hlimit (hpage.limit.1 hsome)
      simpa [ViewQuery.page, hr] using hall.limit
    · rename_i hset
      have hr : r.offset = none := hnone fun hsome => hoffset (hpage.offset.1 hsome)
      have hlimit : "_limit" ∈ names := hpage.limit.1 (by simpa [hr] using hset)
      rw [if_pos hlimit]
      exact hr
  · rename_i hset
    refine ⟨⟨rfl, rfl, rfl, rfl, rfl, rfl⟩, ⟨hall.base, hall.late, hall.bindings, hall.projection,
      hall.transforms⟩, ⟨hall.filters, hall.early.1, hall.sort.1⟩, hall.early.2, hall.sort.2,
      hall.distinct, fun _ => hall.limit, fun _ => ?_⟩
    have hlimit : "_limit" ∉ names := fun hmem => hset (by simp [hpage.limit.2 hmem])
    rw [if_neg hlimit]
    exact hall.offset

/-- A page, an order, a condition and a binding of before, under another offset and another condition. -/
theorem request_changes_what_it_names_of_offset :
    let q : ViewQuery :=
      { view := offerView, strategy := .nestedSelect, root := "offer", limits := ⟨some 10, some 100⟩,
        lookup := .qualified, shape :=
          { base := some "?offer a <http://e/Offer> .", early := ["?offer <http://e/open> true ."],
            bindings := Table.insert ∅ "colour" (.plain "red"),
            filters := [.present ["price"] true], sort := [⟨["price"], true⟩],
            limit := some 50, offset := some 20, distinct := true } }
    let parameters := [("max-price", "30"), ("_offset", "40"), ("_lang", "de")]
    ∃ q', q.request ∅ parameters = .ok q' ∧ q'.root = "offer" ∧ q'.shape.bindings = q.shape.bindings ∧
      [.present ["price"] true] <+: q'.shape.filters ∧ q'.shape.sort = [⟨["price"], true⟩] ∧
      q'.shape.early = ["?offer <http://e/open> true ."] ∧ q'.shape.distinct = true ∧
      q'.shape.limit = some 50 ∧ q'.shape.offset = some 40 := by
  intro q parameters
  obtain ⟨q', hq', hoffset⟩ : ∃ q', q.request ∅ parameters = .ok q' ∧
      q'.shape.offset = some 40 := ⟨_, rfl, rfl⟩
  obtain ⟨hsettings, hparts, hkept, hnear, hsort, hdistinct, hlimit, -⟩ :=
    request_changes_what_it_names hq'
  exact ⟨q', hq', hsettings.2.2.2.1, hparts.2.2.1, hkept.1, hsort (by decide), hnear (by decide),
    hdistinct (by decide), hlimit (by decide), hoffset⟩

/-- **A new limit drops the offset**, though no parameter names it. -/
theorem offset_lost_under_new_limit :
    let q : ViewQuery :=
      { view := offerView, strategy := .flat, shape := { limit := some 10, offset := some 20 } }
    "_offset" ∉ [("_limit", "5")].map (·.1) ∧ ∃ q', q.request ∅ [("_limit", "5")] = .ok q' ∧
      q'.shape.limit = some 5 ∧ q'.shape.offset = none :=
  ⟨by decide, _, rfl, rfl, rfl⟩

end SparqlViews
