import SparqlViews.Proofs.Query.OrderLines
import SparqlViews.Proofs.Result.Stream

/-! # Ordered rows

A query ends its order with the root, and a stream takes adjacent rows for those of one entity. The two
fit: rows that are ordered by some variables and then by the root keep the rows of an entity together, if
these have one value for each of the variables (`Row.contiguous_of_ordered`). So a stream over the rows
of a query gives one tree for each entity (`ViewQuery.order_keeps_entities_together`).

* `Row.Precedes`: the order of rows by several conditions, whatever the order of values is.
* `ResultStream.exists_trees_of_contiguous`: one tree for each entity whose rows are adjacent.
-/

namespace SparqlViews

namespace Row

variable {order : String → Option Term → Option Term → Prop} {conditions : List OrderCondition}
  {c : OrderCondition} {a b y : Row} {rows : List Row} {root : String}

/-! ### The order of rows -/

/-- A row does not come behind another one by a single condition. -/
def Before (order : String → Option Term → Option Term → Prop) (c : OrderCondition) (a b : Row) :
    Prop :=
  if c.descending then order c.name (b.get? c.name) (a.get? c.name)
  else order c.name (a.get? c.name) (b.get? c.name)

/-- **A row does not come behind another one** by several conditions: a later one counts where the
rows are level by those before it. -/
def Precedes (order : String → Option Term → Option Term → Prop) :
    List OrderCondition → Row → Row → Prop
  | [], _, _ => True
  | c :: more, a, b => Before order c a b ∧ (Before order c b a → Precedes order more a b)

instance [∀ name x y, Decidable (order name x y)] (c : OrderCondition) (a b : Row) :
    Decidable (Before order c a b) :=
  inferInstanceAs (Decidable (if c.descending then order c.name (b.get? c.name) (a.get? c.name)
    else order c.name (a.get? c.name) (b.get? c.name)))

/-- Orders of rows can be tested, if those of values can. -/
instance decidablePrecedes [∀ name x y, Decidable (order name x y)] :
    (conditions : List OrderCondition) → (a b : Row) → Decidable (Precedes order conditions a b)
  | [], _, _ => inferInstanceAs (Decidable True)
  | c :: more, a, b =>
    have := decidablePrecedes more a b
    inferInstanceAs (Decidable (Before order c a b ∧ (Before order c b a → Precedes order more a b)))

theorem before_congr_left (h : a.get? c.name = b.get? c.name) :
    Before order c a y ↔ Before order c b y := by
  rw [Before, Before, h]

theorem before_congr_right (h : a.get? c.name = b.get? c.name) :
    Before order c y a ↔ Before order c y b := by
  rw [Before, Before, h]

/-- **What stands between two rows with the same values** is level with them by every condition. -/
theorem Precedes.level (hvalues : ∀ c ∈ conditions, a.get? c.name = b.get? c.name)
    (hay : Precedes order conditions a y) (hyb : Precedes order conditions y b) :
    ∀ c ∈ conditions, Before order c a y ∧ Before order c y a := by
  induction conditions with
  | nil => simp
  | cons c more ih =>
    obtain ⟨hfirst, hay⟩ := hay
    obtain ⟨hsecond, hyb⟩ := hyb
    have hc := hvalues c List.mem_cons_self
    have hback : Before order c y a := (before_congr_right hc).2 hsecond
    have hforth : Before order c b y := (before_congr_left hc).1 hfirst
    have hmore := ih (fun d hd => hvalues d (List.mem_cons_of_mem _ hd)) (hay hback) (hyb hforth)
    intro d hd
    rcases List.mem_cons.1 hd with rfl | hd
    · exact ⟨hfirst, hback⟩
    · exact hmore d hd

/-- **Ordered rows keep those of an entity together**, if the root is among the conditions, its order
tells terms apart, and the rows of an entity have the same values. -/
theorem contiguous_of_ordered (hordered : rows.Pairwise (Precedes order conditions))
    (hroot : ∀ r ∈ rows, (r.get? root).isSome) (hmem : ⟨root, false⟩ ∈ conditions)
    (hapart : ∀ x y, order root (some x) (some y) → order root (some y) (some x) → x = y)
    (hvalues : ∀ a ∈ rows, ∀ b ∈ rows, a.get? root = b.get? root →
      ∀ c ∈ conditions, a.get? c.name = b.get? c.name) :
    Contiguous (rows.map fun r => r.get? root) := by
  intro front middle back x h y hy
  obtain ⟨before, behind, rfl, hbefore, hbehind⟩ := List.map_eq_append_iff.1 h
  obtain ⟨b, rest, rfl, hb, -⟩ := List.map_eq_cons_iff.1 hbehind
  obtain ⟨first, between, rfl, -, hbetween⟩ := List.map_eq_append_iff.1 hbefore
  obtain ⟨a, inner, rfl, ha, rfl⟩ := List.map_eq_cons_iff.1 hbetween
  obtain ⟨r, hr, rfl⟩ := List.mem_map.1 hy
  have hmema : a ∈ first ++ a :: inner ++ b :: rest := by simp
  have hmemb : b ∈ first ++ a :: inner ++ b :: rest := by simp
  have hmemr : r ∈ first ++ a :: inner ++ b :: rest := by simp [hr]
  obtain ⟨hbefore', -, hacross⟩ := List.pairwise_append.1 hordered
  obtain ⟨-, hinner, -⟩ := List.pairwise_append.1 hbefore'
  have hlevel := Precedes.level (hvalues a hmema b hmemb (ha.trans hb.symm))
    ((List.pairwise_cons.1 hinner).1 r hr) (hacross r (by simp [hr]) b List.mem_cons_self)
  obtain ⟨hforth, hback⟩ := hlevel _ hmem
  obtain ⟨x', hx'⟩ := Option.isSome_iff_exists.1 (hroot a hmema)
  obtain ⟨r', hr'⟩ := Option.isSome_iff_exists.1 (hroot r hmemr)
  simp only [Before, hx', hr', Bool.false_eq_true, if_false] at hforth hback
  rw [← ha, hx', hr', hapart _ _ hforth hback]

end Row

/-! ### One tree for each entity -/

open RowSource Row in
/-- **A stream over adjacent rows** gives one tree for each entity, and nothing else. -/
theorem ResultStream.exists_trees_of_contiguous {rows : List Row} {root : String} (view : View)
    (hroot : ∀ r ∈ rows, (r.get? root).isSome) (hadj : Contiguous (rows.map fun r => r.get? root)) :
    ∃ trees : List ResultTree,
      (ResultStream.all { source := .ofRows rows, view, root }).1 = trees.map .ok ∧
      (trees.map ResultTree.id).Nodup ∧
      ∀ x, x ∈ trees.map ResultTree.id ↔ x ∈ rows.map fun r => r.get? root := by
  have hids : ((runs root rows).map (ResultTree.ofRun root view)).map ResultTree.id =
      (runs root rows).map (entityOf? root) := by
    rw [List.map_map]
    exact List.map_congr_left fun run _ => ResultTree.id_ofRun root view run
  refine ⟨(runs root rows).map (ResultTree.ofRun root view), all_ofRows rows view root, ?_,
    fun x => ?_⟩
  · rw [hids]
    exact nodup_entities_runs hroot hadj
  · rw [hids]
    exact mem_entities_runs x rows

/-! ### The rows of a query -/

namespace ViewQuery

/-- **The order of a query keeps the rows of an entity together.** Under either strategy the last order
of the query has a condition for each key of the request that is not bound, and the root at its end.
And if rows that name entities are ordered by these conditions, by any order of values that tells
entities apart, and rows of an entity have the same values to be ordered by, a stream over them gives
one tree for each entity. -/
theorem order_keeps_entities_together {q : ViewQuery} (hv : q.view.WellFormed)
    (hroot : IsVariableName q.root) (hfree : q.shape.isBound q.root = false)
    (htemplate : ∀ template ∈ q.template, q.strategy = .flat → Flat.EndsInOrder template.toList) :
    (∀ text, q.render = .ok text →
      finalOrder? text = some (q.orderConditions.map OrderCondition.text)) ∧
    ∀ (order : String → Option Term → Option Term → Prop) (rows : List Row) (view : View),
      (∀ row ∈ rows, (row.get? q.root).isSome) →
      rows.Pairwise (Row.Precedes order q.orderConditions) →
      (∀ x y, order q.root (some x) (some y) → order q.root (some y) (some x) → x = y) →
      (∀ a ∈ rows, ∀ b ∈ rows, a.get? q.root = b.get? q.root →
        ∀ c ∈ q.orderConditions, a.get? c.name = b.get? c.name) →
      ∃ trees : List ResultTree,
        (ResultStream.all { source := .ofRows rows, view, root := q.root }).1 = trees.map .ok ∧
        (trees.map ResultTree.id).Nodup ∧
        ∀ x, x ∈ trees.map ResultTree.id ↔ x ∈ rows.map fun row => row.get? q.root := by
  refine ⟨fun text => finalOrder?_of_render hv hroot hfree htemplate, ?_⟩
  intro order rows view hnamed hordered hapart hvalues
  have hmem : ⟨q.root, false⟩ ∈ q.orderConditions :=
    List.mem_append_right _ (List.mem_singleton_self _)
  exact ResultStream.exists_trees_of_contiguous view hnamed
    (Row.contiguous_of_ordered hordered hnamed hmem hapart hvalues)

/-- Values in the order of their texts, missing ones first. -/
def byToken (_ : String) : Option Term → Option Term → Prop
  | none, _ => True
  | some _, none => False
  | some x, some y => x = y ∨ x.token < y.token

instance (name : String) : (x y : Option Term) → Decidable (byToken name x y)
  | none, _ => inferInstanceAs (Decidable True)
  | some _, none => inferInstanceAs (Decidable False)
  | some x, some y => inferInstanceAs (Decidable (x = y ∨ x.token < y.token))

/-- Stations by their names, the greatest first. -/
def stationsByName : ViewQuery := {
  view := .leaf { name := "name", iri := "http://e/name" } .empty
  strategy := .flat
  shape := { sort := [⟨["name"], true⟩] } }

/-- Two stations of one name, of which one has two rows. -/
theorem order_keeps_entities_together_of_two :
    let row (id : String) : Row := ⟨[("id", .iri id), ("name", .iri "n")]⟩
    let q := stationsByName
    (∃ text, q.render = .ok text ∧ finalOrder? text = some ["DESC(?name)".toList, "?id".toList]) ∧
    ∃ trees : List ResultTree, (ResultStream.all {
        source := .ofRows [row "a", row "a", row "b"], view := q.view, root := q.root }).1 =
          trees.map .ok ∧ (trees.map ResultTree.id).Nodup := by
  intro row q
  obtain ⟨horder, htrees⟩ := order_keeps_entities_together (q := q) (by decide)
    (by unfold IsVariableName; decide +kernel) (by decide) (by rintro _ ⟨⟩)
  have hconditions : q.orderConditions.map OrderCondition.text =
      ["DESC(?name)".toList, "?id".toList] := by decide +kernel
  rw [hconditions] at horder
  constructor
  · have hok : q.render.isOk = true := by decide +kernel
    cases hrender : q.render with
    | error error =>
      rw [hrender] at hok
      cases hok
    | ok text => exact ⟨text, rfl, horder text hrender⟩
  · have hapart : ∀ x y, byToken "id" (some x) (some y) → byToken "id" (some y) (some x) → x = y := by
      rintro x y (h | h) (h' | h')
      · exact h
      · exact h
      · exact h'.symm
      · exact absurd h' (List.lt_asymm h)
    obtain ⟨trees, hall, hnodup, -⟩ := htrees byToken [row "a", row "a", row "b"] q.view
      (by decide) (by decide +kernel) hapart (by decide)
    exact ⟨trees, hall, hnodup⟩

end ViewQuery

end SparqlViews
