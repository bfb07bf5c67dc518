import Mathlib.Data.List.Forall2
import Mathlib.Data.List.Nodup
import SparqlViews.Proofs.Endpoint.RequestOperations
import SparqlViews.Proofs.Table

/-! # What a request means

A parameter has a meaning of its own, which the other parameters and the conditions of the query have
no part in (`Means`). A request is answered exactly if each of its parameters has one and the values
under each name make an equality, and its query is put together from these (`ViewQuery.request_iff`).

* `ParameterKind`, `Meaning`: what names tell apart, and what a parameter may mean.
* `byName`: values by their names, in the order in which the names first come.
* `ViewQuery.EqualityOf`: the equality that the values under a name make.
* `ViewQuery.foldlM_step_eq_ok`: a request reads its parameters one by one.
-/

namespace SparqlViews

/-! ### Kinds of parameters -/

/-- **The kinds of parameters**, which are told apart by their names. -/
inductive ParameterKind where
  | limit
  | offset
  | order
  | place
  | distinct
  /-- A comparison, or a test for presence. -/
  | condition
  | equality
  /-- A name with a leading underscore that means nothing to a query. -/
  | foreign
  deriving DecidableEq, Repr

def ParameterKind.ofName (name : String) : ParameterKind :=
  if name.toList.head? = some '_' then
    if name = "_limit" then .limit
    else if name = "_offset" then .offset
    else if name = "_sort" then .order
    else if name = "_near" then .place
    else if name = "_distinct" then .distinct
    else .foreign
  else if (Text.dropPrefix? name "exists-").isSome || (comparison? name).isSome then .condition
  else .equality

namespace ParameterKind

/-- The parameters of a kind, in their order. -/
def among (k : ParameterKind) (parameters : List (String × String)) : List (String × String) :=
  parameters.filter fun p => ofName p.1 = k

variable {k : ParameterKind} {parameters : List (String × String)} {p : String × String}
  {name : String}

theorem mem_among : p ∈ k.among parameters ↔ p ∈ parameters ∧ ofName p.1 = k := by
  rw [among, List.mem_filter, decide_eq_true_iff]

theorem plain_of_condition (h : ofName name = .condition) : ¬ name.toList.head? = some '_' := by
  unfold ofName at h
  split_ifs at h with hhead
  exact hhead

theorem plain_of_equality (h : ofName name = .equality) : ¬ name.toList.head? = some '_' ∧
    Text.dropPrefix? name "exists-" = none ∧ comparison? name = none := by
  unfold ofName at h
  split_ifs at h with hhead _ _ _ _ _ hmarks
  simpa [hhead] using hmarks

theorem unknown_of_foreign (h : ofName name = .foreign) : name.toList.head? = some '_' ∧
    name ≠ "_limit" ∧ name ≠ "_offset" ∧ name ≠ "_sort" ∧ name ≠ "_near" ∧ name ≠ "_distinct" := by
  unfold ofName at h
  split_ifs at h with hhead hlimit hoffset horder hplace hdistinct
  exact ⟨hhead, hlimit, hoffset, horder, hplace, hdistinct⟩

end ParameterKind

/-- **What a parameter may mean.** -/
inductive Meaning where
  | limit (n : ℕ)
  | offset (n : ℕ)
  | order (keys : List SortKey)
  | distinct (b : Bool)
  | condition (f : Filter)
  /-- One of the values that are asked for under a name. -/
  | value (name raw : String)
  | nothing
  deriving Inhabited

namespace Meaning

def kind : Meaning → ParameterKind
  | limit _ => .limit
  | offset _ => .offset
  | order _ => .order
  | distinct _ => .distinct
  | condition _ => .condition
  | value _ _ => .equality
  | nothing => .foreign

def limit? : Meaning → Option ℕ
  | limit n => some n
  | _ => none

def offset? : Meaning → Option ℕ
  | offset n => some n
  | _ => none

def order? : Meaning → Option (List SortKey)
  | order keys => some keys
  | _ => none

def distinct? : Meaning → Option Bool
  | distinct b => some b
  | _ => none

def condition? : Meaning → Option Filter
  | condition f => some f
  | _ => none

def value? : Meaning → Option (String × String)
  | value name raw => some (name, raw)
  | _ => none

theorem parts (m : Meaning) : (m.kind ≠ .limit → m.limit? = none) ∧
    (m.kind ≠ .offset → m.offset? = none) ∧ (m.kind ≠ .order → m.order? = none) ∧
    (m.kind ≠ .distinct → m.distinct? = none) ∧ (m.kind ≠ .condition → m.condition? = none) := by
  cases m <;> simp [kind, limit?, offset?, order?, distinct?, condition?]

end Meaning

/-! ### Names and values under a view -/

namespace ViewQuery

/-- **The entry that a name means**, if conditions may use it. -/
structure Filterable (q : ViewQuery) (name : String) (path : Path) (e : Entry) : Prop where
  resolved : q.resolve name = .ok path
  found : q.view.find? path = some e
  filterable : e.property.filterable = true

/-- The key of an order that a name stands for. -/
def IsKey (q : ViewQuery) (key : String × Bool) (k : SortKey) : Prop :=
  q.resolve key.1 = .ok k.path ∧ k.descending = key.2

/-- **What a parameter means** to a query: a number that is written out, an order whose names are known, a
truth value, a condition on an entry with a value that the entry has, or a value that waits for the others
of its name. -/
inductive Means (q : ViewQuery) (labels : Prefixes) : String × String → Meaning → Prop
  | limit {value : String} {n : ℕ} (h : Decimal.natural64 (Text.trimmed value) = .ok n) :
    Means q labels ("_limit", value) (.limit n)
  | offset {value : String} {n : ℕ} (h : Decimal.natural64 (Text.trimmed value) = .ok n) :
    Means q labels ("_offset", value) (.offset n)
  | order {value : String} {keys : List SortKey}
    (h : List.Forall₂ q.IsKey (RequestValue.sortNames value) keys) :
    Means q labels ("_sort", value) (.order keys)
  | distinct {value : String} {b : Bool} (h : RequestValue.truth "_distinct" value = .ok b) :
    Means q labels ("_distinct", value) (.distinct b)
  | present {name value under : String} {path : Path} {e : Entry} {b : Bool}
    (hkind : ParameterKind.ofName name = .condition)
    (hunder : Text.dropPrefix? name "exists-" = some under) (he : q.Filterable under path e)
    (hb : RequestValue.truth name value = .ok b) :
    Means q labels (name, value) (.condition (.present path b))
  | range {name value under : String} {comparison : Comparison} {path : Path} {e : Entry} {t : Term}
    (hkind : ParameterKind.ofName name = .condition)
    (hnone : Text.dropPrefix? name "exists-" = none)
    (hunder : comparison? name = some (comparison, under)) (he : q.Filterable under path e)
    (ht : e.property.value labels value = .ok t) :
    Means q labels (name, value) (.condition (.range path comparison t))
  | value {name raw : String} (hkind : ParameterKind.ofName name = .equality) :
    Means q labels (name, raw) (.value name raw)
  | nothing {name value : String} (hkind : ParameterKind.ofName name = .foreign) :
    Means q labels (name, value) .nothing

/-- **The equality of a name with its values**, which are terms of one entry. -/
def EqualityOf (q : ViewQuery) (labels : Prefixes) (given : String × List String) (f : Filter) :
    Prop :=
  ∃ path e terms, q.Filterable given.1 path e ∧
    List.Forall₂ (fun raw t => e.property.value labels raw = .ok t) given.2 terms ∧
    f = .equals path terms

variable {q : ViewQuery} {labels : Prefixes} {name raw : String} {path : Path} {e : Entry}
  {p : String × String} {m : Meaning}

theorem Means.kind (h : q.Means labels p m) : ParameterKind.ofName p.1 = m.kind := by
  cases h with
  | limit h => exact (by decide : ParameterKind.ofName "_limit" = .limit)
  | offset h => exact (by decide : ParameterKind.ofName "_offset" = .offset)
  | order h => exact (by decide : ParameterKind.ofName "_sort" = .order)
  | distinct h => exact (by decide : ParameterKind.ofName "_distinct" = .distinct)
  | present hkind hunder he hb => exact hkind
  | range hkind hnone hunder he ht => exact hkind
  | value hkind => exact hkind
  | nothing hkind => exact hkind

theorem filterablePath_eq_ok : q.filterablePath name = .ok path ↔ ∃ e, q.Filterable name path e := by
  unfold filterablePath
  rw [Steps.bind_eq_ok]
  constructor
  · rintro ⟨path', hpath, h⟩
    split at h
    · rename_i e he
      split at h
      · rename_i hfilterable
        cases h
        exact ⟨e, hpath, he, hfilterable⟩
      · cases h
    · cases h
  · rintro ⟨e, hpath, he, hfilterable⟩
    refine ⟨path, hpath, ?_⟩
    rw [he]
    exact if_pos hfilterable

theorem Filterable.term_eq_ok (h : q.Filterable name path e) {t : Term} :
    RequestValue.term q labels name raw = .ok t ↔ e.property.value labels raw = .ok t := by
  unfold RequestValue.term
  rw [Steps.bind_eq_ok]
  constructor
  · rintro ⟨path', hpath, ht⟩
    rw [Steps.mapError_eq_ok, h.resolved] at hpath
    cases hpath
    rw [h.found] at ht
    exact Steps.mapError_eq_ok.1 ht
  · intro ht
    refine ⟨path, Steps.mapError_eq_ok.2 h.resolved, ?_⟩
    rw [h.found]
    exact Steps.mapError_eq_ok.2 ht

theorem filterable_iff (q : ViewQuery) (shape : Shape) :
    ({ q with shape } : ViewQuery).Filterable name path e ↔ q.Filterable name path e :=
  ⟨fun h => ⟨h.resolved, h.found, h.filterable⟩, fun h => ⟨h.resolved, h.found, h.filterable⟩⟩

theorem bind_filterablePath_eq_ok (make : Path → Filter) {q' : ViewQuery} :
    (do return q.withFilter (make (← q.filterablePath name)) : Except ViewError ViewQuery) = .ok q' ↔
      ∃ path e, q.Filterable name path e ∧ q' = q.withFilter (make path) := by
  simp only [Steps.bind_eq_ok, filterablePath_eq_ok]
  constructor
  · rintro ⟨path, ⟨e, he⟩, hq'⟩
    exact ⟨path, e, he, (Except.ok.inj hq').symm⟩
  · rintro ⟨path, e, he, rfl⟩
    exact ⟨path, ⟨e, he⟩, rfl⟩

theorem applyEquality_eq_ok {given : String × List String} {q' : ViewQuery} :
    Request.applyEquality labels q given = .ok q' ↔
      ∃ f, q.EqualityOf labels given f ∧ q' = q.withFilter f := by
  constructor
  · intro h
    obtain ⟨terms, hterms, hq'⟩ := Steps.bind_eq_ok.1 h
    obtain ⟨path, e, he, rfl⟩ := (bind_filterablePath_eq_ok fun path => .equals path terms).1
      (Steps.mapError_eq_ok.1 hq')
    have hvalues := (Steps.mapM_eq_ok_iff.1 hterms).imp fun raw t => he.term_eq_ok.1
    exact ⟨_, ⟨path, e, terms, he, hvalues, rfl⟩, rfl⟩
  · rintro ⟨_, ⟨path, e, terms, he, hvalues, rfl⟩, rfl⟩
    have hterms := Steps.mapM_eq_ok_iff.2 (hvalues.imp fun raw t => he.term_eq_ok.2)
    exact Steps.bind_eq_ok.2 ⟨terms, hterms, Steps.mapError_eq_ok.2
      ((bind_filterablePath_eq_ok fun path => .equals path terms).2 ⟨path, e, he, rfl⟩)⟩

end ViewQuery

/-! ### Values by their names -/

/-- **Values by their names**: each name once, in the order in which the names first come, with all its
values in their order. -/
def byName (given : List (String × String)) : List (String × List String) :=
  (given.map (·.1)).eraseDups.map fun name =>
    (name, (given.filter fun p => p.1 = name).map (·.2))

section Gather

variable {names : List String} {values : String → List String} {name value : String}

theorem gather_of_not_mem (h : name ∉ names) :
    gather name value (names.map fun n => (n, values n)) =
      (names.map fun n => (n, values n)) ++ [(name, [value])] := by
  induction names with
  | nil => rfl
  | cons n names ih =>
    rw [List.mem_cons, not_or] at h
    rw [List.map_cons, gather, if_neg (Ne.symm h.1), ih h.2]
    rfl

theorem gather_of_mem (hnames : names.Nodup) (h : name ∈ names) :
    gather name value (names.map fun n => (n, values n)) =
      names.map fun n => (n, if n = name then values n ++ [value] else values n) := by
  induction names with
  | nil => cases h
  | cons n names ih =>
    rw [List.nodup_cons] at hnames
    rw [List.map_cons, List.map_cons, gather]
    by_cases hn : n = name
    · subst hn
      rw [if_pos rfl, if_pos rfl]
      refine congrArg _ (List.map_congr_left fun m hm => ?_)
      rw [if_neg]
      rintro rfl
      exact hnames.1 hm
    · rw [if_neg hn, if_neg hn, ih hnames.2 ((List.mem_cons.1 h).resolve_left (Ne.symm hn))]

end Gather

theorem byName_concat (given : List (String × String)) (name value : String) :
    byName (given ++ [(name, value)]) = gather name value (byName given) := by
  unfold byName
  rw [List.map_append, List.map_singleton, eraseDups_concat]
  split
  · rename_i hmem
    rw [gather_of_mem (nodup_eraseDups _) (List.mem_eraseDups.2 hmem)]
    refine List.map_congr_left fun n _ => ?_
    by_cases hn : n = name
    · simp [hn]
    · simp [hn, Ne.symm hn]
  · rename_i hnew
    rw [gather_of_not_mem (by rwa [List.mem_eraseDups]), List.map_append, List.map_singleton]
    have hnone : given.filter (fun p => p.1 = name) = [] := by
      rw [List.filter_eq_nil_iff]
      intro p hp heq
      exact hnew (List.mem_map.2 ⟨p, hp, of_decide_eq_true heq⟩)
    congr 1
    · refine List.map_congr_left fun n hn => ?_
      have hne : name ≠ n := fun heq => hnew (heq ▸ List.mem_eraseDups.1 hn)
      simp [hne]
    · simp [hnone]

/-! ### Steps of a request -/

namespace ViewQuery

/-- The query with further keys of its order. -/
def withKeys (q : ViewQuery) (keys : List SortKey) : ViewQuery :=
  { q with shape := { q.shape with sort := q.shape.sort ++ keys } }

/-- The query with further conditions. -/
def withFilters (q : ViewQuery) (filters : List Filter) : ViewQuery :=
  { q with shape := { q.shape with filters := q.shape.filters ++ filters } }

variable {q q' : ViewQuery} {labels : Prefixes} {p : String × String} {m : Meaning}
  {meanings : List Meaning}

@[simp] theorem withKeys_withKeys (q : ViewQuery) (keys more : List SortKey) :
    (q.withKeys keys).withKeys more = q.withKeys (keys ++ more) := by
  simp only [withKeys, List.append_assoc]

@[simp] theorem withFilters_withFilters (q : ViewQuery) (filters more : List Filter) :
    (q.withFilters filters).withFilters more = q.withFilters (filters ++ more) := by
  simp only [withFilters, List.append_assoc]

theorem sortBy_eq_ok {name : String} {descending : Bool} : q.sortBy name descending = .ok q' ↔
    ∃ k, q.IsKey (name, descending) k ∧ q' = q.withKeys [k] := by
  unfold sortBy
  rw [Steps.bind_eq_ok]
  constructor
  · rintro ⟨path, hpath, hq'⟩
    exact ⟨⟨path, descending⟩, ⟨hpath, rfl⟩, (Except.ok.inj hq').symm⟩
  · rintro ⟨⟨path, descending⟩, ⟨hpath, rfl⟩, rfl⟩
    exact ⟨path, hpath, rfl⟩

/-- **An order adds the keys of its names.** -/
theorem foldlM_sortBy_eq_ok {names : List (String × Bool)} :
    names.foldlM (fun q key => q.sortBy key.1 key.2) q = .ok q' ↔
      ∃ keys, List.Forall₂ q.IsKey names keys ∧ q' = q.withKeys keys := by
  have hstep : ∀ keys, ∀ key ∈ names, ∀ t, (q.withKeys keys).sortBy key.1 key.2 = .ok t ↔
      ∃ k, q.IsKey key k ∧ t = q.withKeys (keys ++ [k]) := by
    intro keys key _ t
    simp only [sortBy_eq_ok, withKeys_withKeys]
    rfl
  have hstart : q.withKeys [] = q := by rw [withKeys, List.append_nil]
  have hrun := Steps.foldlM_eq_ok_iff
    (f := fun (q : ViewQuery) (key : String × Bool) => q.sortBy key.1 key.2) (t := q') hstep []
  rwa [hstart] at hrun

/-- **The query after some parameters**, before the values that were gathered and the page. -/
def changed (q : ViewQuery) (meanings : List Meaning) : ViewQuery :=
  { q with shape := { q.shape with
      filters := q.shape.filters ++ meanings.filterMap Meaning.condition?
      sort := q.shape.sort ++ (meanings.filterMap Meaning.order?).flatten
      distinct := (meanings.filterMap Meaning.distinct?).getLast?.getD q.shape.distinct } }

end ViewQuery

namespace Request

variable {q : ViewQuery} {labels : Prefixes} {r' : Request} {p : String × String} {m : Meaning}
  {meanings : List Meaning}

/-- **A request after some parameters**: all that they mean, kind by kind. -/
def after (q : ViewQuery) (meanings : List Meaning) : Request where
  query := q.changed meanings
  limit := (meanings.filterMap Meaning.limit?).getLast?
  offset := (meanings.filterMap Meaning.offset?).getLast?
  equalities := byName (meanings.filterMap Meaning.value?)

theorem alter_eq_ok {r : Request} {change : Except ViewError ViewQuery} :
    r.alter change = .ok r' ↔ ∃ q, change = .ok q ∧ r' = { r with query := q } := by
  refine ⟨of_alter, ?_⟩
  rintro ⟨q, rfl, rfl⟩
  rfl

/-- What a meaning does to a request. -/
def take (r : Request) : Meaning → Request
  | .limit n => { r with limit := some n }
  | .offset n => { r with offset := some n }
  | .order keys => { r with query := r.query.withKeys keys }
  | .distinct b => { r with query := r.query.distinct b }
  | .condition f => { r with query := r.query.withFilter f }
  | .value name raw => { r with equalities := gather name raw r.equalities }
  | .nothing => r

theorem after_concat (q : ViewQuery) (meanings : List Meaning) (m : Meaning) :
    after q (meanings ++ [m]) = (after q meanings).take m := by
  cases m <;> simp [after, take, ViewQuery.changed, ViewQuery.withKeys, ViewQuery.withFilter,
    ViewQuery.distinct, Meaning.limit?, Meaning.offset?, Meaning.order?, Meaning.distinct?,
    Meaning.condition?, Meaning.value?, List.filterMap_cons, byName_concat]

theorem exists_means_of_reserved (hhead : p.1.toList.head? = some '_') (hplace : p.1 ≠ "_near")
    (h : (after q meanings).reserved p.1 p.2 = .ok r') :
    ∃ m, q.Means labels p m ∧ r' = (after q meanings).take m := by
  obtain ⟨name, value⟩ := p
  unfold reserved at h
  split at h
  · rename_i hname
    obtain rfl : name = "_limit" := hname
    obtain ⟨n, hn, h⟩ := Steps.bind_eq_ok.1 h
    exact ⟨.limit n, .limit (Steps.mapError_eq_ok.1 hn), (Except.ok.inj h).symm⟩
  rename_i hlimit
  split at h
  · rename_i hname
    obtain rfl : name = "_offset" := hname
    obtain ⟨n, hn, h⟩ := Steps.bind_eq_ok.1 h
    exact ⟨.offset n, .offset (Steps.mapError_eq_ok.1 hn), (Except.ok.inj h).symm⟩
  rename_i hoffset
  split at h
  · rename_i hname
    obtain rfl : name = "_sort" := hname
    obtain ⟨q', hq', rfl⟩ := of_alter h
    obtain ⟨keys, hkeys, rfl⟩ := ViewQuery.foldlM_sortBy_eq_ok.1 hq'
    exact ⟨.order keys, .order hkeys, rfl⟩
  rename_i horder
  split at h
  · rename_i hname
    obtain rfl : name = "_distinct" := hname
    obtain ⟨b, hb, h⟩ := Steps.bind_eq_ok.1 h
    exact ⟨.distinct b, .distinct hb, (Except.ok.inj h).symm⟩
  · rename_i hdistinct
    refine ⟨.nothing, .nothing ?_, (Except.ok.inj h).symm⟩
    rw [ParameterKind.ofName, if_pos hhead, if_neg hlimit, if_neg hoffset, if_neg horder,
      if_neg hplace, if_neg hdistinct]

/-- **What a parameter does is what it means.** -/
theorem exists_means_of_step (hplace : p.1 ≠ "_near")
    (h : (after q meanings).step labels p = .ok r') :
    ∃ m, q.Means labels p m ∧ r' = (after q meanings).take m := by
  obtain ⟨name, value⟩ := p
  unfold step at h
  dsimp only at h
  split at h
  · rename_i hhead
    exact exists_means_of_reserved hhead hplace h
  · rename_i hplain
    split at h
    · rename_i under _ hunder
      obtain ⟨b, hb, h⟩ := Steps.bind_eq_ok.1 h
      obtain ⟨q', hq', rfl⟩ := of_alter h
      obtain ⟨path, e, he, rfl⟩ :=
        (ViewQuery.bind_filterablePath_eq_ok fun path => .present path b).1 hq'
      refine ⟨_, .present ?_ hunder ((ViewQuery.filterable_iff q _).1 he) hb, rfl⟩
      rw [ParameterKind.ofName, if_neg hplain, hunder]
      rfl
    · rename_i comparison under hnone hunder
      obtain ⟨t, ht, h⟩ := Steps.bind_eq_ok.1 h
      obtain ⟨q', hq', rfl⟩ := of_alter h
      obtain ⟨path, e, he, rfl⟩ :=
        (ViewQuery.bind_filterablePath_eq_ok fun path => .range path comparison t).1 hq'
      refine ⟨_, .range ?_ hnone hunder ((ViewQuery.filterable_iff q _).1 he) (he.term_eq_ok.1 ht), rfl⟩
      rw [ParameterKind.ofName, if_neg hplain, hunder, Option.isSome_some, Bool.or_true]
      rfl
    · rename_i hnone hunder
      refine ⟨_, .value ?_, (Except.ok.inj h).symm⟩
      rw [ParameterKind.ofName, if_neg hplain, hnone, hunder]
      rfl

/-- **What a parameter means, it does.** -/
theorem step_of_means (h : q.Means labels p m) :
    (after q meanings).step labels p = .ok ((after q meanings).take m) := by
  cases h with
  | @limit value n h =>
    have hcount : RequestValue.count "_limit" value = .ok n := Steps.mapError_eq_ok.2 h
    exact Steps.bind_eq_ok.2 ⟨n, hcount, rfl⟩
  | @offset value n h =>
    have hcount : RequestValue.count "_offset" value = .ok n := Steps.mapError_eq_ok.2 h
    exact Steps.bind_eq_ok.2 ⟨n, hcount, rfl⟩
  | @order value keys h =>
    have hkeys : (RequestValue.sortNames value).foldlM (fun q key => q.sortBy key.1 key.2)
        (after q meanings).query = .ok ((after q meanings).query.withKeys keys) :=
      ViewQuery.foldlM_sortBy_eq_ok.2 ⟨keys, h, rfl⟩
    exact alter_eq_ok.2 ⟨_, hkeys, rfl⟩
  | @distinct value b h => exact Steps.bind_eq_ok.2 ⟨b, h, rfl⟩
  | @present name value under path e b hkind hunder he hb =>
    have hplain := ParameterKind.plain_of_condition hkind
    simp only [step, if_neg hplain, hunder]
    refine Steps.bind_eq_ok.2 ⟨b, hb, alter_eq_ok.2 ⟨_, ?_, rfl⟩⟩
    exact (ViewQuery.bind_filterablePath_eq_ok fun path => .present path b).2
      ⟨path, e, (ViewQuery.filterable_iff q _).2 he, rfl⟩
  | @range name value under comparison path e t hkind hnone hunder he ht =>
    have hplain := ParameterKind.plain_of_condition hkind
    have hentry : (after q meanings).query.Filterable under path e :=
      (ViewQuery.filterable_iff q _).2 he
    simp only [step, if_neg hplain, hnone, hunder]
    refine Steps.bind_eq_ok.2 ⟨t, hentry.term_eq_ok.2 ht, alter_eq_ok.2 ⟨_, ?_, rfl⟩⟩
    exact (ViewQuery.bind_filterablePath_eq_ok fun path => .range path comparison t).2
      ⟨path, e, hentry, rfl⟩
  | @value name raw hkind =>
    obtain ⟨hplain, hnone, hcomparison⟩ := ParameterKind.plain_of_equality hkind
    simp only [step, if_neg hplain, hnone, hcomparison]
    rfl
  | @nothing name value hkind =>
    obtain ⟨hhead, hlimit, hoffset, horder, hplace, hdistinct⟩ :=
      ParameterKind.unknown_of_foreign hkind
    simp only [step, if_pos hhead, reserved, if_neg hlimit, if_neg hoffset, if_neg horder,
      if_neg hplace, if_neg hdistinct]
    rfl

/-- The query with the page that was asked for. -/
def paged (r : Request) (q : ViewQuery) : ViewQuery :=
  if r.limit.isSome || r.offset.isSome then q.page (r.limit.or q.shape.limit) r.offset else q

theorem finish_eq_ok {r : Request} {q' : ViewQuery} : r.finish labels = .ok q' ↔
    ∃ q, r.equalities.foldlM (applyEquality labels) r.query = .ok q ∧ q' = r.paged q := by
  unfold finish paged
  rw [Steps.bind_eq_ok]
  refine exists_congr fun q => and_congr_right fun _ => ?_
  split <;> exact ⟨fun h => (Except.ok.inj h).symm, fun h => congrArg _ h.symm⟩

/-- **A request reads its parameters one by one**, each for itself. -/
theorem foldlM_step_eq_ok {parameters : List (String × String)}
    (hplace : ∀ p ∈ parameters, p.1 ≠ "_near") :
    parameters.foldlM (step labels) { query := q } = .ok r' ↔
      ∃ meanings, List.Forall₂ (q.Means labels) parameters meanings ∧ r' = after q meanings := by
  have hstep : ∀ meanings, ∀ p ∈ parameters, ∀ t, (after q meanings).step labels p = .ok t ↔
      ∃ m, q.Means labels p m ∧ t = after q (meanings ++ [m]) := by
    intro meanings p hp t
    simp only [after_concat]
    refine ⟨exists_means_of_step (hplace p hp), ?_⟩
    rintro ⟨m, hm, rfl⟩
    exact step_of_means hm
  have hstart : after q [] = { query := q } := by
    simp [after, ViewQuery.changed, byName]
  have hrun := Steps.foldlM_eq_ok_iff (t := r') hstep []
  rwa [hstart] at hrun

end Request

namespace ViewQuery

variable {q q' : ViewQuery} {labels : Prefixes} {parameters : List (String × String)}

theorem equalityOf_iff (q : ViewQuery) (shape : Shape) {given : String × List String} {f : Filter} :
    ({ q with shape } : ViewQuery).EqualityOf labels given f ↔ q.EqualityOf labels given f := by
  simp only [EqualityOf, filterable_iff]

theorem foldlM_applyEquality_eq_ok {given : List (String × List String)} :
    given.foldlM (Request.applyEquality labels) q = .ok q' ↔
      ∃ filters, List.Forall₂ (q.EqualityOf labels) given filters ∧ q' = q.withFilters filters := by
  have hstep : ∀ filters, ∀ g ∈ given, ∀ t,
      Request.applyEquality labels (q.withFilters filters) g = .ok t ↔
        ∃ f, q.EqualityOf labels g f ∧ t = q.withFilters (filters ++ [f]) := by
    intro filters g _ t
    simp only [applyEquality_eq_ok, ← withFilters_withFilters]
    exact exists_congr fun f => and_congr_left fun _ => equalityOf_iff q _
  have hstart : q.withFilters [] = q := by rw [withFilters, List.append_nil]
  have hrun := Steps.foldlM_eq_ok_iff (t := q') hstep []
  rwa [hstart] at hrun

/-- **What a request makes of a query**: its conditions, then those of the request in their order, then the
equalities; its keys, then those of the request; the last truth value and the last limit, if there are any;
and with a limit or an offset the last offset. -/
def answer (q : ViewQuery) (meanings : List Meaning) (equalities : List Filter) : ViewQuery :=
  let limit := (meanings.filterMap Meaning.limit?).getLast?
  let offset := (meanings.filterMap Meaning.offset?).getLast?
  { q with shape := { q.shape with
      filters := q.shape.filters ++ meanings.filterMap Meaning.condition? ++ equalities
      sort := q.shape.sort ++ (meanings.filterMap Meaning.order?).flatten
      distinct := (meanings.filterMap Meaning.distinct?).getLast?.getD q.shape.distinct
      limit := limit.or q.shape.limit
      offset := if limit.isSome || offset.isSome then offset else q.shape.offset } }

theorem paged_after (q : ViewQuery) (meanings : List Meaning) (equalities : List Filter) :
    (Request.after q meanings).paged ((q.changed meanings).withFilters equalities) =
      q.answer meanings equalities := by
  unfold Request.paged Request.after answer
  cases (meanings.filterMap Meaning.limit?).getLast? <;>
    cases (meanings.filterMap Meaning.offset?).getLast? <;> rfl

theorem finish_after_eq_ok {meanings : List Meaning} :
    (Request.after q meanings).finish labels = .ok q' ↔ ∃ equalities,
      List.Forall₂ (q.EqualityOf labels) (byName (meanings.filterMap Meaning.value?)) equalities ∧
        q' = q.answer meanings equalities := by
  have hequal : (q.changed meanings).EqualityOf labels = q.EqualityOf labels :=
    funext₂ fun given f => propext (equalityOf_iff q _)
  rw [Request.finish_eq_ok]
  constructor
  · rintro ⟨q₁, hq₁, rfl⟩
    obtain ⟨equalities, hequalities, rfl⟩ := foldlM_applyEquality_eq_ok.1 hq₁
    exact ⟨equalities, hequal ▸ hequalities, paged_after q meanings equalities⟩
  · rintro ⟨equalities, hequalities, rfl⟩
    exact ⟨_, foldlM_applyEquality_eq_ok.2 ⟨equalities, hequal.symm ▸ hequalities, rfl⟩,
      (paged_after q meanings equalities).symm⟩

theorem filterMap_value?_of_means {meanings : List Meaning}
    (h : List.Forall₂ (q.Means labels) parameters meanings) :
    meanings.filterMap Meaning.value? = ParameterKind.equality.among parameters := by
  induction h with
  | nil => rfl
  | @cons p m parameters meanings hm _ ih =>
    have hkind := hm.kind
    rw [List.filterMap_cons, ParameterKind.among, List.filter_cons, ih, hkind]
    cases hm <;> rfl

/-- **A request is answered exactly if each parameter means something** and the values under each name
make an equality, and then with the query that these give. -/
theorem request_iff (hplace : ∀ p ∈ parameters, p.1 ≠ "_near") :
    q.request labels parameters = .ok q' ↔ ∃ meanings equalities,
      List.Forall₂ (q.Means labels) parameters meanings ∧
      List.Forall₂ (q.EqualityOf labels)
        (byName (ParameterKind.equality.among parameters)) equalities ∧
      q' = q.answer meanings equalities := by
  unfold request
  rw [Steps.bind_eq_ok]
  simp only [Request.foldlM_step_eq_ok hplace]
  constructor
  · rintro ⟨_, ⟨meanings, hmeanings, rfl⟩, hq'⟩
    obtain ⟨equalities, hequalities, rfl⟩ := finish_after_eq_ok.1 hq'
    rw [filterMap_value?_of_means hmeanings] at hequalities
    exact ⟨meanings, equalities, hmeanings, hequalities, rfl⟩
  · rintro ⟨meanings, equalities, hmeanings, hequalities, rfl⟩
    rw [← filterMap_value?_of_means hmeanings] at hequalities
    exact ⟨_, ⟨meanings, hmeanings, rfl⟩, finish_after_eq_ok.2 ⟨equalities, hequalities, rfl⟩⟩

end ViewQuery

end SparqlViews
