import SparqlViews.Proofs.Query.Joins

/-! # The pattern of an inner select

The pattern of an inner select has the joined triples, then groups for the keys of the order, then one
condition for each filter (`exists_parts_of_innerPattern`). So every filter finds the value of its path
(`filters_join_their_paths`).

The groups need not match, but the variables in them count as joined: a key whose variable is there adds
no group. A path that is not joined therefore has a group of its own exactly if the first key that goes
on from it ends there (`Grouped.first`), and a later key for it depends on the path of that earlier one
(`sort_key_seen_iff`, `sort_key_unseen_behind_longer`).
-/

namespace SparqlViews.Nested

open Element

variable {v : View} {shape : Shape} {root : String} {start j result : Joined} {done : List SortKey}
  {groups : List Path} {p q : Path} {k : SortKey}

/-! ### The groups of the order -/

/-- The path of the first key that has a place in the order and goes on from a path, or ends with it. -/
def firstBeyond? (shape : Shape) (root : String) (keys : List SortKey) (p : Path) : Option Path :=
  (keys.find? fun k => !shape.isBound (Path.toVariable root k.path) && p.isPrefixOf k.path).map (·.path)

theorem firstBeyond?_append_singleton (shape : Shape) (root : String) (done : List SortKey) (k : SortKey)
    (p : Path) : firstBeyond? shape root (done ++ [k]) p = (firstBeyond? shape root done p).or
      (if !shape.isBound (Path.toVariable root k.path) && p.isPrefixOf k.path then some k.path
        else none) := by
  rw [firstBeyond?, List.find?_append, Option.map_or, ← firstBeyond?, List.find?_singleton]
  refine congrArg _ ?_
  split <;> rfl

theorem exists_key_of_firstBeyond? (h : firstBeyond? shape root done p = some q) :
    ∃ k ∈ done, k.path = q ∧ shape.isBound (Path.toVariable root q) = false ∧ p <+: q := by
  obtain ⟨k, hk, rfl⟩ := Option.map_eq_some_iff.1 h
  have htest := List.find?_some hk
  rw [Bool.and_eq_true, Bool.not_eq_true', List.isPrefixOf_iff_prefix] at htest
  exact ⟨k, List.mem_of_find?_eq_some hk, rfl, htest⟩

theorem firstBeyond?_eq_none_iff : firstBeyond? shape root done p = none ↔
    ∀ k ∈ done, shape.isBound (Path.toVariable root k.path) = false → ¬ p <+: k.path := by
  rw [firstBeyond?, Option.map_eq_none_iff, List.find?_eq_none]
  refine forall₂_congr fun k _ => ?_
  rw [Bool.and_eq_true, Bool.not_eq_true', List.isPrefixOf_iff_prefix, not_and]

/-- **The groups that are added for some keys**, behind the elements at the start, each with the chain of
its path. -/
structure Grouped (v : View) (shape : Shape) (root : String) (start : Joined) (done : List SortKey)
    (groups : List Path) (j : Joined) : Prop where
  elements : ∃ chains, groups.mapM (Pattern.chain root v) = .ok chains ∧
    j.elements = start.elements ++ chains.map Element.optional
  vars : ∀ q ∈ v.paths, Path.toVariable root q ∈ j.vars ↔
    Path.toVariable root q ∈ start.vars ∨ ∃ g ∈ groups, q <+: g
  new : ∀ g ∈ groups, g ∈ v.paths ∧ Path.toVariable root g ∉ start.vars
  covered : ∀ k ∈ done, k.path ∈ v.paths ∧ (shape.isBound (Path.toVariable root k.path) = false →
    Path.toVariable root k.path ∈ j.vars)
  first : ∀ p ∈ v.paths, Path.toVariable root p ∉ start.vars →
    (p ∈ groups ↔ firstBeyond? shape root done p = some p)

theorem grouped_nil (v : View) (shape : Shape) (root : String) (start : Joined) :
    Grouped v shape root start [] [] start where
  elements := ⟨[], rfl, (List.append_nil _).symm⟩
  vars q _ := by simp
  new := by simp
  covered := by simp
  first p _ _ := by simp [firstBeyond?]

theorem mem_objects_chain (hv : v.WellFormed) {chain : List Element}
    (h : Pattern.chain root v p = .ok chain) (hq : q ∈ v.paths) :
    Path.toVariable root q ∈ chain.flatMap objects ↔ q <+: p := by
  have hsame : objects = Element.objects := by
    funext e
    cases e <;> rfl
  rw [hsame, flatMap_objects, List.mem_map]
  constructor
  · rintro ⟨t, ht, hobject⟩
    obtain ⟨r, -, hbegin, hr⟩ := (Pattern.mem_outerAll_chain h).1 ht
    obtain ⟨hrmem, hrobject⟩ := View.of_triple? hv hr
    rwa [View.toVariable_inj hv hq hrmem (hobject.symm.trans hrobject)]
  · intro hbegin
    obtain ⟨t, ht⟩ := View.exists_triple? root hv hq
    exact ⟨t, (Pattern.mem_outerAll_chain h).2 ⟨q, View.ne_nil_of_mem_paths hq, hbegin, ht⟩,
      (View.of_triple? hv ht).2⟩

/-- A key that is bound, or whose variable is there, adds no group. -/
theorem Grouped.skip (h : Grouped v shape root start done groups j) (hk : k.path ∈ v.paths)
    (hskip : shape.isBound (Path.toVariable root k.path) = false →
      Path.toVariable root k.path ∈ j.vars) :
    Grouped v shape root start (done ++ [k]) groups j where
  elements := h.elements
  vars := h.vars
  new := h.new
  covered d hd := by
    rcases List.mem_append.1 hd with hd | hd
    · exact h.covered d hd
    · rw [List.mem_singleton.1 hd]
      exact ⟨hk, hskip⟩
  first p hp hnew := by
    rw [h.first p hp hnew, firstBeyond?_append_singleton]
    cases hfirst : firstBeyond? shape root done p with
    | some x => rfl
    | none =>
      -- the key is not the first one for its own path
      refine iff_of_false (by simp) ?_
      rw [Option.none_or]
      split
      · rename_i htest
        rw [Bool.and_eq_true, Bool.not_eq_true'] at htest
        intro heq
        have hpath : k.path = p := Option.some.inj heq
        have hthere := hskip htest.1
        rw [hpath, h.vars p hp] at hthere
        obtain ⟨g, hg, hbegin⟩ := hthere.resolve_left hnew
        obtain ⟨hgmem, hgnew⟩ := h.new g hg
        obtain ⟨d, hd, rfl, hfree, -⟩ :=
          exists_key_of_firstBeyond? ((h.first g hgmem hgnew).1 hg)
        exact firstBeyond?_eq_none_iff.1 hfirst d hd hfree hbegin
      · simp

/-- **A key whose variable is not there adds a group with the chain of its path.** -/
theorem Grouped.push (hv : v.WellFormed) (h : Grouped v shape root start done groups j)
    (hclosed : ∀ p ∈ v.paths, ∀ q ∈ v.paths, q <+: p → Path.toVariable root p ∈ start.vars →
      Path.toVariable root q ∈ start.vars)
    (hk : k.path ∈ v.paths) (hfree : shape.isBound (Path.toVariable root k.path) = false)
    (hnew : Path.toVariable root k.path ∉ j.vars) {chain : List Element}
    (hchain : Pattern.chain root v k.path = .ok chain) :
    Grouped v shape root start (done ++ [k]) (groups ++ [k.path])
      ⟨j.elements ++ [.optional chain], j.vars ++ chain.flatMap objects⟩ where
  elements := by
    obtain ⟨chains, hgroups, helements⟩ := h.elements
    refine ⟨chains ++ [chain], ?_, ?_⟩
    · rw [List.mapM_append, hgroups, List.mapM_cons, hchain]
      rfl
    · rw [helements, List.map_append, List.append_assoc]
      rfl
  vars q hq := by
    rw [List.mem_append, h.vars q hq, mem_objects_chain hv hchain hq, or_assoc]
    refine or_congr_right ?_
    simp only [List.mem_append, List.mem_singleton, or_and_right, exists_or, exists_eq_left]
  new g hg := by
    rcases List.mem_append.1 hg with hg | hg
    · exact h.new g hg
    · rw [List.mem_singleton.1 hg]
      exact ⟨hk, fun hstart => hnew ((h.vars k.path hk).2 (.inl hstart))⟩
  covered d hd := by
    rcases List.mem_append.1 hd with hd | hd
    · exact ⟨(h.covered d hd).1, fun hfree => List.mem_append_left _ ((h.covered d hd).2 hfree)⟩
    · rw [List.mem_singleton.1 hd]
      exact ⟨hk, fun _ => List.mem_append_right _ ((mem_objects_chain hv hchain hk).2 List.prefix_rfl)⟩
  first p hp hpnew := by
    rw [List.mem_append, List.mem_singleton, h.first p hp hpnew, firstBeyond?_append_singleton]
    cases hfirst : firstBeyond? shape root done p with
    | some x =>
      -- an earlier key goes on from the path, so that the variable of the path is there
      refine or_iff_left_of_imp ?_
      rintro rfl
      obtain ⟨d, hd, rfl, hdfree, hbegin⟩ := exists_key_of_firstBeyond? hfirst
      obtain ⟨hdmem, hdvars⟩ := h.covered d hd
      refine absurd ((h.vars k.path hp).2 ?_) hnew
      rcases (h.vars d.path hdmem).1 (hdvars hdfree) with hstart | ⟨g, hg, hbeyond⟩
      · exact .inl (hclosed d.path hdmem k.path hp hbegin hstart)
      · exact .inr ⟨g, hg, hbegin.trans hbeyond⟩
    | none =>
      rw [Option.none_or, hfree, Bool.not_false, Bool.true_and]
      constructor
      · rintro (hnone | rfl)
        · cases hnone
        · simp
      · intro heq
        split at heq
        · exact .inr (Option.some.inj heq).symm
        · cases heq

/-- **The groups after a key of the order.** -/
theorem Grouped.addSort (hv : v.WellFormed) (h : Grouped v shape root start done groups j)
    (hclosed : ∀ p ∈ v.paths, ∀ q ∈ v.paths, q <+: p → Path.toVariable root p ∈ start.vars →
      Path.toVariable root q ∈ start.vars)
    (hk : k.path ∈ v.paths) (hresult : j.addSort v root shape k = .ok result) :
    ∃ groups, Grouped v shape root start (done ++ [k]) groups result := by
  unfold Joined.addSort at hresult
  dsimp only at hresult
  split at hresult
  · rename_i hskip
    cases hresult
    refine ⟨groups, h.skip hk fun hfree => ?_⟩
    rwa [hfree, Bool.or_false, List.contains_iff_mem] at hskip
  · rename_i hadd
    rw [Bool.not_eq_true, Bool.or_eq_false_iff, ← Bool.not_eq_true, List.contains_iff_mem] at hadd
    obtain ⟨chain, hchain, hresult⟩ := Steps.bind_eq_ok.1 hresult
    cases hresult
    exact ⟨groups ++ [k.path], h.push hv hclosed hk hadd.2 hadd.1 hchain⟩

/-! ### The parts of the pattern -/

/-- **The pattern of an inner select**: the texts that are given and the joined triples, the groups of the
order, the conditions, and further texts. -/
theorem exists_parts_of_innerPattern (hv : v.WellFormed)
    (hroot : ∀ p ∈ v.paths, Path.toVariable root p ≠ root)
    (hfilters : ∀ f ∈ shape.filters, f.path ∈ v.paths) (hsort : ∀ k ∈ shape.sort, k.path ∈ v.paths) :
    ∃ filtered sorted groups conditions,
      innerPattern v shape root = .ok (sorted.elements ++
        conditions.map (fun c => .raw (String.ofList c)) ++ shape.late.map Element.raw) ∧
      Joins v root (shape.early ++ shape.base.toList) (IsJoined v shape) filtered ∧
      Grouped v shape root filtered shape.sort groups sorted ∧
      List.Forall₂ (fun f c => Clause.filterText root v f = .ok c) shape.filters conditions := by
  obtain ⟨body, hbody⟩ := exists_innerPattern root
    (fun f hf => (View.mem_paths_iff hv).1 (hfilters f hf))
    (fun k hk => (View.mem_paths_iff hv).1 (hsort k hk))
  have hparts := hbody
  unfold innerPattern at hparts
  obtain ⟨filtered, hfiltered, hparts⟩ := Steps.bind_eq_ok.1 hparts
  obtain ⟨sorted, hsorted, hparts⟩ := Steps.bind_eq_ok.1 hparts
  obtain ⟨conditions, hconditions, hparts⟩ := Steps.bind_eq_ok.1 hparts
  have hjoins := joins_filters hv hroot hfiltered
  have hclosed : ∀ p ∈ v.paths, ∀ q ∈ v.paths, q <+: p →
      Path.toVariable root p ∈ filtered.vars → Path.toVariable root q ∈ filtered.vars := by
    intro p hp q hq hbegin
    rw [hjoins.mem_vars_iff hv hroot hp, hjoins.mem_vars_iff hv hroot hq]
    exact IsJoined.of_beginning (View.ne_nil_of_mem_paths hp) (View.ne_nil_of_mem_paths hq) hbegin
  obtain ⟨groups, hgroups⟩ := Steps.foldlM_induction
    (P := fun done j => ∃ groups, Grouped v shape root filtered done groups j)
    ⟨[], grouped_nil v shape root filtered⟩
    (fun done k j result hk ⟨_, hj⟩ hresult => hj.addSort hv hclosed (hsort k hk) hresult) hsorted
  exact ⟨filtered, sorted, groups, conditions, hbody.trans hparts.symm, hjoins, hgroups,
    Steps.forall₂_of_mapM hconditions⟩

/-- **Every filter finds the value of its path.** The pattern of an inner select has texts that are given,
then blocks of triples, then groups for the order, then one condition for each filter, in their order,
and further texts. The triples outside of groups are those of the mandatory pattern and of the chains of
filters on values, each of them once; and each has the root as its subject, or the object of an earlier
one. -/
theorem filters_join_their_paths (hv : v.WellFormed)
    (hroot : ∀ p ∈ v.paths, Path.toVariable root p ≠ root)
    (hfilters : ∀ f ∈ shape.filters, f.path ∈ v.paths) (hsort : ∀ k ∈ shape.sort, k.path ∈ v.paths) :
    ∃ (joins : List Element) (groups : List (List Element)) (conditions : List (List Char)),
      innerPattern v shape root = .ok ((shape.early ++ shape.base.toList).map Element.raw ++ joins ++
        groups.map Element.optional ++ conditions.map (fun c => .raw (String.ofList c)) ++
        shape.late.map Element.raw) ∧
      (∀ e ∈ joins, e.isBlock = true) ∧
      (∀ t, t ∈ outerAll joins ↔ t ∈ outerAll (Pattern.compile .mandatory root v).elements ∨
        ∃ f ∈ shape.filters, f.isOnValue = true ∧
          ∃ chain, Pattern.chain root v f.path = .ok chain ∧ t ∈ outerAll chain) ∧
      (outerAll joins).Nodup ∧
      (∀ before t after, outerAll joins = before ++ t :: after →
        t.subject = root ∨ t.subject ∈ before.map Triple.object) ∧
      List.Forall₂ (fun f c => Clause.filterText root v f = .ok c) shape.filters conditions := by
  obtain ⟨filtered, sorted, groups, conditions, hbody, hjoins, hgroups, hconditions⟩ :=
    exists_parts_of_innerPattern hv hroot hfilters hsort
  obtain ⟨joins, hfront, hblocks⟩ := hjoins.front
  obtain ⟨chains, -, helements⟩ := hgroups.elements
  have houter : outerAll filtered.elements = outerAll joins := by
    simp [hfront]
  refine ⟨joins, chains, conditions, by rw [hbody, helements, hfront], hblocks, fun t => ?_,
    houter ▸ hjoins.nodup, fun before t after hsplit => ?_, hconditions⟩
  · rw [← houter, hjoins.triples, Pattern.mem_outerAll_mandatory root hv]
    constructor
    · rintro ⟨p, hp, hmandatory | ⟨f, hf, hvalue, hbegin⟩, ht⟩
      · exact .inl ⟨p, hp, hmandatory, ht⟩
      · obtain ⟨chain, hchain⟩ :=
          Pattern.exists_chain root ((View.mem_paths_iff hv).1 (hfilters f hf))
        exact .inr ⟨f, hf, hvalue, chain, hchain,
          (Pattern.mem_outerAll_chain hchain).2 ⟨p, View.ne_nil_of_mem_paths hp, hbegin, ht⟩⟩
    · rintro (⟨p, hp, hmandatory, ht⟩ | ⟨f, hf, hvalue, chain, hchain, hmem⟩)
      · exact ⟨p, hp, .inl hmandatory, ht⟩
      · obtain ⟨q, -, hbegin, ht⟩ := (Pattern.mem_outerAll_chain hchain).1 hmem
        exact ⟨q, (View.of_triple? hv ht).1, .inr ⟨f, hf, hvalue, hbegin⟩, ht⟩
  · exact (hjoins.bound.subject (houter.trans hsplit)).imp_left List.mem_singleton.1

/-- A filter on the number of a house joins the house and its street, whatever else is optional. -/
theorem filters_join_their_paths_of_number :
    let shape : Shape := {
      filters := [.equals ["home", "street", "no"] [.plain "7"], .present ["age"] true]
      sort := [⟨["age"], false⟩] }
    Pattern.personView.WellFormed ∧
    (∀ p ∈ Pattern.personView.paths, Path.toVariable "id" p ≠ "id") ∧
    (∀ f ∈ shape.filters, f.path ∈ Pattern.personView.paths) ∧
    (∀ k ∈ shape.sort, k.path ∈ Pattern.personView.paths) ∧
    ∃ (joins : List Element) (groups : List (List Element)) (conditions : List (List Char)),
      innerPattern Pattern.personView shape "id" = .ok (joins ++ groups.map Element.optional ++
        conditions.map fun c => .raw (String.ofList c)) ∧
      ⟨"home", "http://e/street", "home_street"⟩ ∈ outerAll joins ∧ (outerAll joins).Nodup := by
  intro shape
  have hv : Pattern.personView.WellFormed := by decide
  have hroot : ∀ p ∈ Pattern.personView.paths, Path.toVariable "id" p ≠ "id" := by decide
  have hfilters : ∀ f ∈ shape.filters, f.path ∈ Pattern.personView.paths := by decide
  have hsort : ∀ k ∈ shape.sort, k.path ∈ Pattern.personView.paths := by decide
  obtain ⟨joins, groups, conditions, hbody, -, htriples, hnodup, -⟩ :=
    filters_join_their_paths hv hroot hfilters hsort
  refine ⟨hv, hroot, hfilters, hsort, joins, groups, conditions, hbody.trans ?_,
    (htriples _).2 (.inr ?_), hnodup⟩
  · exact congrArg Except.ok (List.append_nil _)
  · exact ⟨.equals ["home", "street", "no"] [.plain "7"], List.mem_cons_self, rfl, _, rfl, by decide⟩

theorem Joins.forall_mem_outerAll_chain_iff (hv : v.WellFormed) {given : List String}
    (h : Joins v root given (IsJoined v shape) j) (hp : p ∈ v.paths) {chain : List Element}
    (hchain : Pattern.chain root v p = .ok chain) :
    (∀ t ∈ outerAll chain, t ∈ outerAll j.elements) ↔ IsJoined v shape p := by
  have hne := View.ne_nil_of_mem_paths hp
  constructor
  · intro hall
    obtain ⟨t, ht⟩ := View.exists_triple? root hv hp
    obtain ⟨q, -, hjoined, hq⟩ := (h.triples t).1
      (hall t ((Pattern.mem_outerAll_chain hchain).2 ⟨p, hne, List.prefix_rfl, ht⟩))
    rwa [View.triple?_inj hv ht hq]
  · intro hjoined t ht
    obtain ⟨q, hqne, hbegin, hq⟩ := (Pattern.mem_outerAll_chain hchain).1 ht
    exact (h.triples t).2
      ⟨q, (View.of_triple? hv hq).1, hjoined.of_beginning hne hqne hbegin, hq⟩

theorem mem_chains_iff (hv : v.WellFormed) {chains : List (List Element)} {chain : List Element}
    (hchains : groups.mapM (Pattern.chain root v) = .ok chains) (hgroups : ∀ g ∈ groups, g ∈ v.paths)
    (hp : p ∈ v.paths) (hchain : Pattern.chain root v p = .ok chain) :
    chain ∈ chains ↔ p ∈ groups := by
  constructor
  · intro hmem
    obtain ⟨g, hg, hsame⟩ := Steps.mem_of_mapM hchains hmem
    rwa [Pattern.chain_inj hv hp (hgroups g hg) hchain hsame]
  · intro hmem
    obtain ⟨other, hother, hsame⟩ := Steps.exists_mem_of_mapM hchains hmem
    rwa [Except.ok.inj (hchain.symm.trans hsame)]

/-- **When a key of the order finds its value.** The triples of its path stand outside of groups, or in a
group of their own, exactly if the path is joined for the view or a filter, or if the first key that has
a place in the order and goes on from the path ends there. -/
theorem sort_key_seen_iff (hv : v.WellFormed)
    (hroot : ∀ p ∈ v.paths, Path.toVariable root p ≠ root)
    (hfilters : ∀ f ∈ shape.filters, f.path ∈ v.paths) (hsort : ∀ k ∈ shape.sort, k.path ∈ v.paths) :
    ∃ body, innerPattern v shape root = .ok body ∧
      ∀ k ∈ shape.sort, ∃ chain, Pattern.chain root v k.path = .ok chain ∧
        (((∀ t ∈ outerAll chain, t ∈ outerAll body) ∨ Element.optional chain ∈ body) ↔
          IsJoined v shape k.path ∨ firstBeyond? shape root shape.sort k.path = some k.path) := by
  obtain ⟨filtered, sorted, groups, conditions, hbody, hjoins, hgroups, -⟩ :=
    exists_parts_of_innerPattern hv hroot hfilters hsort
  obtain ⟨chains, hchains, helements⟩ := hgroups.elements
  obtain ⟨joins, hfront, hblocks⟩ := hjoins.front
  refine ⟨_, hbody, fun k hk => ?_⟩
  have hp := hsort k hk
  obtain ⟨chain, hchain⟩ := Pattern.exists_chain root ((View.mem_paths_iff hv).1 hp)
  have houter : outerAll (sorted.elements ++ conditions.map (fun c => .raw (String.ofList c)) ++
      shape.late.map Element.raw) = outerAll filtered.elements := by
    simp [helements]
  have hgroup : Element.optional chain ∈ sorted.elements ++
      conditions.map (fun c => .raw (String.ofList c)) ++ shape.late.map Element.raw ↔
        k.path ∈ groups := by
    rw [← mem_chains_iff hv hchains (fun g hg => (hgroups.new g hg).1) hp hchain, helements, hfront]
    have hnone : Element.optional chain ∉ joins := fun h => by cases hblocks _ h
    simp [hnone]
  refine ⟨chain, hchain, ?_⟩
  rw [houter, hjoins.forall_mem_outerAll_chain_iff hv hp hchain, hgroup]
  refine or_congr_right' fun hnot => hgroups.first k.path hp ?_
  rwa [hjoins.mem_vars_iff hv hroot hp]

/-- People by the street and then by the home, of which either may be missing. -/
def byStreet : Shape := { sort := [⟨["home", "street"], false⟩, ⟨["home"], false⟩] }

/-- The street is found: no earlier key goes on from it. -/
theorem sort_key_seen_iff_of_street : Pattern.personView.WellFormed ∧
    (∀ p ∈ Pattern.personView.paths, Path.toVariable "id" p ≠ "id") ∧
    (∀ f ∈ byStreet.filters, f.path ∈ Pattern.personView.paths) ∧
    (∀ k ∈ byStreet.sort, k.path ∈ Pattern.personView.paths) ∧
    ∃ body chain, innerPattern Pattern.personView byStreet "id" = .ok body ∧
      Pattern.chain "id" Pattern.personView ["home", "street"] = .ok chain ∧
      ((∀ t ∈ outerAll chain, t ∈ outerAll body) ∨ Element.optional chain ∈ body) := by
  have hv : Pattern.personView.WellFormed := by decide
  have hroot : ∀ p ∈ Pattern.personView.paths, Path.toVariable "id" p ≠ "id" := by decide
  have hfilters : ∀ f ∈ byStreet.filters, f.path ∈ Pattern.personView.paths := by decide
  have hsort : ∀ k ∈ byStreet.sort, k.path ∈ Pattern.personView.paths := by decide
  obtain ⟨body, hbody, hkeys⟩ := sort_key_seen_iff hv hroot hfilters hsort
  obtain ⟨chain, hchain, hseen⟩ := hkeys ⟨["home", "street"], false⟩ List.mem_cons_self
  exact ⟨hv, hroot, hfilters, hsort, body, chain, hbody, hchain, hseen.2 (.inr (by decide))⟩

/-- **A key may miss its value behind a longer one**: people with a home but without a street match no
group that has the variable of the home. -/
theorem sort_key_unseen_behind_longer : Pattern.personView.WellFormed ∧
    (∀ p ∈ Pattern.personView.paths, Path.toVariable "id" p ≠ "id") ∧
    (∀ k ∈ byStreet.sort, k.path ∈ Pattern.personView.paths ∧
      byStreet.isBound (Path.toVariable "id" k.path) = false) ∧
    ∃ body chain, innerPattern Pattern.personView byStreet "id" = .ok body ∧
      Pattern.chain "id" Pattern.personView ["home"] = .ok chain ∧
      ¬ ((∀ t ∈ outerAll chain, t ∈ outerAll body) ∨ Element.optional chain ∈ body) := by
  refine ⟨by decide, by decide, by decide, [.block "id" [("http://e/name", "name")],
    .optional [.triple "id" "http://e/home" "home", .triple "home" "http://e/street" "home_street"]],
    [.triple "id" "http://e/home" "home"], rfl, rfl, ?_⟩
  rintro (hall | hmem)
  · exact absurd (hall ⟨"id", "http://e/home", "home"⟩ (by decide)) (by decide)
  · rcases List.mem_cons.1 hmem with h | h
    · cases h
    · cases List.mem_singleton.1 h

end SparqlViews.Nested
