import SparqlViews.Proofs.Endpoint.RequestMeaning

/-! # When a request is answered

A request is answered exactly if each of its parameters is acceptable on its own
(`ViewQuery.exists_request_iff`). What it is answered with depends on the parameters of each kind and on
their order, but not on how those of different kinds follow one another (`ViewQuery.request_of_sameKinds`).

* `ViewQuery.Accepts`: the parameters that are acceptable.
* `request_accounts_for_parameters`: when a request is answered, and with what.
-/

namespace SparqlViews

/-! ### Acceptable parameters -/

theorem mem_byName {given : List (String × String)} {group : String × List String} :
    group ∈ byName given ↔ (∃ raw, (group.1, raw) ∈ given) ∧
      group.2 = (given.filter fun p => p.1 = group.1).map (·.2) := by
  unfold byName
  rw [List.mem_map]
  constructor
  · rintro ⟨name, hname, rfl⟩
    obtain ⟨⟨_, raw⟩, hp, rfl⟩ := List.mem_map.1 (List.mem_eraseDups.1 hname)
    exact ⟨⟨raw, hp⟩, rfl⟩
  · rintro ⟨⟨raw, hraw⟩, hvalues⟩
    exact ⟨group.1, List.mem_eraseDups.2 (List.mem_map.2 ⟨_, hraw, rfl⟩), Prod.ext rfl hvalues.symm⟩

namespace ViewQuery

/-- **A parameter that is acceptable on its own**: it means something, and as an equality it has a value of
an entry that conditions may use. -/
def Accepts (q : ViewQuery) (labels : Prefixes) (p : String × String) : Prop :=
  (∃ m, q.Means labels p m) ∧ (ParameterKind.ofName p.1 = .equality →
    ∃ path e t, q.Filterable p.1 path e ∧ e.property.value labels p.2 = .ok t)

variable {q q' : ViewQuery} {labels : Prefixes} {parameters others : List (String × String)}
  {given : List (String × String)}

theorem Filterable.unique {name : String} {path path' : Path} {e e' : Entry}
    (h : q.Filterable name path e) (h' : q.Filterable name path' e') : path' = path ∧ e' = e := by
  obtain rfl : path' = path := Except.ok.inj (h'.resolved.symm.trans h.resolved)
  exact ⟨rfl, Option.some.inj (h'.found.symm.trans h.found)⟩

/-- **The values under each name make an equality** exactly if each of them does. -/
theorem exists_equalities_iff :
    (∃ equalities, List.Forall₂ (q.EqualityOf labels) (byName given) equalities) ↔
      ∀ p ∈ given, ∃ path e t, q.Filterable p.1 path e ∧ e.property.value labels p.2 = .ok t := by
  constructor
  · rintro ⟨equalities, hequalities⟩ ⟨name, raw⟩ hp
    have hgroup : (name, (given.filter fun p => p.1 = name).map (·.2)) ∈ byName given :=
      mem_byName.2 ⟨⟨raw, hp⟩, rfl⟩
    obtain ⟨f, path, e, terms, he, hterms, -⟩ := exists_of_forall₂ hequalities _ hgroup
    have hraw : raw ∈ (given.filter fun p => p.1 = name).map (·.2) :=
      List.mem_map.2 ⟨(name, raw), List.mem_filter.2 ⟨hp, by simp⟩, rfl⟩
    obtain ⟨t, ht⟩ := exists_of_forall₂ hterms raw hraw
    exact ⟨path, e, t, he, ht⟩
  · intro hgiven
    refine exists_forall₂ fun group hgroup => ?_
    obtain ⟨⟨raw, hraw⟩, hvalues⟩ := mem_byName.1 hgroup
    obtain ⟨path, e, -, he, -⟩ := hgiven _ hraw
    obtain ⟨terms, hterms⟩ : ∃ terms, List.Forall₂
        (fun raw t => e.property.value labels raw = .ok t) group.2 terms := by
      refine exists_forall₂ fun raw hmem => ?_
      rw [hvalues] at hmem
      obtain ⟨p, hp, rfl⟩ := List.mem_map.1 hmem
      obtain ⟨hp, hname⟩ := List.mem_filter.1 hp
      obtain ⟨path', e', t, he', ht⟩ := hgiven p hp
      rw [of_decide_eq_true hname] at he'
      obtain ⟨-, rfl⟩ := he.unique he'
      exact ⟨t, ht⟩
    exact ⟨_, path, e, terms, he, hterms, rfl⟩

theorem exists_request_iff (hplace : ∀ p ∈ parameters, p.1 ≠ "_near") :
    (∃ q', q.request labels parameters = .ok q') ↔ ∀ p ∈ parameters, q.Accepts labels p := by
  simp only [request_iff hplace]
  constructor
  · rintro ⟨-, meanings, equalities, hmeanings, hequalities, -⟩ p hp
    refine ⟨exists_of_forall₂ hmeanings p hp, fun hkind => ?_⟩
    exact exists_equalities_iff.1 ⟨equalities, hequalities⟩ p (ParameterKind.mem_among.2 ⟨hp, hkind⟩)
  · intro haccepts
    obtain ⟨meanings, hmeanings⟩ := exists_forall₂ fun p hp => (haccepts p hp).1
    have hvalues : ∀ p ∈ ParameterKind.equality.among parameters, ∃ path e t,
        q.Filterable p.1 path e ∧ e.property.value labels p.2 = .ok t := by
      intro p hp
      obtain ⟨hmem, hkind⟩ := ParameterKind.mem_among.1 hp
      exact (haccepts p hmem).2 hkind
    obtain ⟨equalities, hequalities⟩ := exists_equalities_iff.2 hvalues
    exact ⟨_, meanings, equalities, hmeanings, hequalities, rfl⟩

/-! ### The order of parameters -/

/-- **The same parameters of each kind, in the same order**, however the kinds follow one another. -/
def SameKinds (parameters others : List (String × String)) : Prop :=
  ∀ k : ParameterKind, k.among parameters = k.among others

theorem SameKinds.symm (h : SameKinds parameters others) : SameKinds others parameters :=
  fun k => (h k).symm

theorem SameKinds.mem {p : String × String} (h : SameKinds parameters others) (hp : p ∈ others) :
    p ∈ parameters := by
  have hp' := ParameterKind.mem_among.2 ⟨hp, rfl⟩
  rw [← h] at hp'
  exact (ParameterKind.mem_among.1 hp').1

theorem filterMap_map_among {β : Type} {meaning : String × String → Meaning} {k : ParameterKind}
    {part : Meaning → Option β} (hpart : ∀ m, m.kind ≠ k → part m = none)
    (h : ∀ p ∈ parameters, q.Means labels p (meaning p)) :
    (parameters.map meaning).filterMap part = ((k.among parameters).map meaning).filterMap part := by
  induction parameters with
  | nil => rfl
  | cons p parameters ih =>
    have hrest := ih fun p hp => h p (List.mem_cons_of_mem _ hp)
    have hkind := (h p List.mem_cons_self).kind
    rw [ParameterKind.among, List.filter_cons]
    split
    · rw [List.map_cons, List.map_cons, List.filterMap_cons, List.filterMap_cons, hrest]
      rfl
    · rename_i hother
      rw [List.map_cons, List.filterMap_cons, hpart _ fun heq => hother (by simp [hkind, heq]), hrest]
      rfl

/-- **Only the order within a kind counts.** -/
theorem answer_of_sameKinds {meaning : String × String → Meaning} (hsame : SameKinds parameters others)
    (h : ∀ p ∈ parameters, q.Means labels p (meaning p)) (equalities : List Filter) :
    q.answer (parameters.map meaning) equalities = q.answer (others.map meaning) equalities := by
  have hothers : ∀ p ∈ others, q.Means labels p (meaning p) := fun p hp => h p (hsame.mem hp)
  have hparts : ∀ {β : Type} (k : ParameterKind) (part : Meaning → Option β),
      (∀ m, m.kind ≠ k → part m = none) →
        (parameters.map meaning).filterMap part = (others.map meaning).filterMap part := by
    intro β k part hpart
    rw [filterMap_map_among hpart h, filterMap_map_among hpart hothers, hsame k]
  have hlimit := hparts .limit Meaning.limit? fun m => m.parts.1
  have hoffset := hparts .offset Meaning.offset? fun m => m.parts.2.1
  have horder := hparts .order Meaning.order? fun m => m.parts.2.2.1
  have hdistinct := hparts .distinct Meaning.distinct? fun m => m.parts.2.2.2.1
  have hcondition := hparts .condition Meaning.condition? fun m => m.parts.2.2.2.2
  unfold answer
  rw [hlimit, hoffset, horder, hdistinct, hcondition]

theorem request_of_sameKinds (hplace : ∀ p ∈ parameters, p.1 ≠ "_near")
    (hsame : SameKinds parameters others) (h : q.request labels parameters = .ok q') :
    q.request labels others = .ok q' := by
  have hplace' : ∀ p ∈ others, p.1 ≠ "_near" := fun p hp => hplace p (hsame.mem hp)
  obtain ⟨meanings, equalities, hmeanings, hequalities, -⟩ := (request_iff hplace).1 h
  obtain ⟨meaning, hmeaning⟩ : ∃ meaning : String × String → Meaning,
      ∀ p ∈ parameters, q.Means labels p (meaning p) := by
    choose! meaning hmeaning using exists_of_forall₂ hmeanings
    exact ⟨meaning, hmeaning⟩
  have hall : ∀ {l : List (String × String)}, (∀ p ∈ l, q.Means labels p (meaning p)) →
      List.Forall₂ (q.Means labels) l (l.map meaning) := fun hl =>
    List.forall₂_map_right_iff.2 (List.forall₂_same.2 hl)
  have hanswer := (request_iff hplace).2 ⟨_, equalities, hall hmeaning, hequalities, rfl⟩
  obtain rfl : q' = _ := Except.ok.inj (h.symm.trans hanswer)
  rw [answer_of_sameKinds hsame hmeaning]
  rw [hsame] at hequalities
  exact (request_iff hplace').2
    ⟨_, equalities, hall fun p hp => hmeaning p (hsame.mem hp), hequalities, rfl⟩

end ViewQuery

/-- Offers with a price and a colour. -/
def offerView : View :=
  .leaf { name := "price", iri := "http://e/price", range := some xsdInteger }
    (.leaf { name := "colour", iri := "http://e/colour" } .empty)

end SparqlViews
