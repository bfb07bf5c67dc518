import SparqlViews.Proofs.Pattern.Outer
import SparqlViews.Proofs.Query.Rendering

/-! # What an inner select joins

The pattern of an inner select begins with the mandatory pattern of the view. The triples along the path of
each filter on a value are added to it, but for those that are there; which these are is read from the
variables. This is sound, since the variables that are there are those of the paths that are joined
(`Joins.vars`): each filter joins the beginnings of one more path (`Joins.addFilter`), so that in the end
the paths are the mandatory ones and the beginnings of the paths of filters (`joins_filters`).

* `Joins`: what is known of the elements and variables when some paths are joined.
-/

namespace SparqlViews

open Element

/-- The filter asks for a value of its path, not only for its presence. -/
def Filter.isOnValue : Filter → Bool
  | .present _ _ => false
  | _ => true

namespace View

variable {v : View} {p q : Path}

theorem isMandatory_of_beginning (hp : p ≠ []) (hq : q ≠ []) (hbegin : q <+: p)
    (h : v.isMandatory p = true) : v.isMandatory q = true := by
  rw [isMandatory, List.isEmpty_iff, optionals, List.filter_eq_nil_iff] at h ⊢
  intro r hr
  obtain ⟨hne, hrq⟩ := (Path.mem_ancestors_append hq).1 hr
  exact h r ((Path.mem_ancestors_append hp).2 ⟨hne, hrq.trans hbegin⟩)

end View

namespace Nested

variable {v : View} {shape : Shape} {root : String} {given : List String} {joined other : Path → Prop}
  {j result : Joined} {t : Triple} {p q : Path} {f : Filter} {k : SortKey}

/-! ### Joined paths -/

/-- **The paths that an inner select joins**: the mandatory ones and the beginnings of those of filters. -/
def IsJoined (v : View) (shape : Shape) (p : Path) : Prop :=
  v.isMandatory p = true ∨ ∃ f ∈ shape.filters, f.isOnValue = true ∧ p <+: f.path

theorem IsJoined.of_beginning (hp : p ≠ []) (hq : q ≠ []) (hbegin : q <+: p)
    (h : IsJoined v shape p) : IsJoined v shape q :=
  h.imp (View.isMandatory_of_beginning hp hq hbegin) fun ⟨f, hf, hvalue, hpath⟩ =>
    ⟨f, hf, hvalue, hbegin.trans hpath⟩

/-- **The paths that are joined**: their triples stand outside of groups, each once, behind texts that are
given, and their variables are those that are there. -/
structure Joins (v : View) (root : String) (given : List String) (joined : Path → Prop) (j : Joined) :
    Prop where
  vars : ∀ x, x ∈ j.vars ↔ x = root ∨ ∃ p ∈ v.paths, joined p ∧ x = Path.toVariable root p
  triples : ∀ t, t ∈ outerAll j.elements ↔ ∃ p ∈ v.paths, joined p ∧ v.triple? root p = some t
  nodup : (outerAll j.elements).Nodup
  bound : BoundAll [root] j.elements
  front : ∃ joins, j.elements = given.map Element.raw ++ joins ∧ ∀ e ∈ joins, e.isBlock = true

theorem Joins.congr (h : Joins v root given joined j) (hiff : ∀ p ∈ v.paths, joined p ↔ other p) :
    Joins v root given other j where
  vars x := by
    rw [h.vars]
    exact or_congr_right (exists_congr fun p => and_congr_right fun hp => and_congr_left' (hiff p hp))
  triples t := by
    rw [h.triples]
    exact exists_congr fun p => and_congr_right fun hp => and_congr_left' (hiff p hp)
  nodup := h.nodup
  bound := h.bound
  front := h.front

section Paths
variable (hv : v.WellFormed) (hroot : ∀ p ∈ v.paths, Path.toVariable root p ≠ root)
include hv

theorem Joins.mem_vars_iff_object (h : Joins v root given joined j) {x : String} :
    x ∈ j.vars ↔ x ∈ [root] ++ j.elements.flatMap Element.objects := by
  rw [h.vars, flatMap_objects, List.mem_append, List.mem_singleton, List.mem_map]
  refine or_congr_right ⟨?_, ?_⟩
  · rintro ⟨p, hp, hjoined, rfl⟩
    obtain ⟨t, ht⟩ := View.exists_triple? root hv hp
    exact ⟨t, (h.triples t).2 ⟨p, hp, hjoined, ht⟩, (View.of_triple? hv ht).2⟩
  · rintro ⟨t, ht, rfl⟩
    obtain ⟨p, hp, hjoined, ht⟩ := (h.triples t).1 ht
    exact ⟨p, hp, hjoined, (View.of_triple? hv ht).2⟩

theorem Joins.append_triple (h : Joins v root given joined j) (ht : v.triple? root p = some t)
    (hsubject : t.subject ∈ j.vars) (hnew : ¬ joined p) :
    Joins v root given (fun q => joined q ∨ q = p)
      ⟨j.elements ++ [ofTriple t], j.vars ++ [t.object]⟩ where
  vars x := by
    obtain ⟨hp, hobject⟩ := View.of_triple? hv ht
    rw [List.mem_append, List.mem_singleton, h.vars, hobject, or_assoc]
    refine or_congr_right ⟨?_, ?_⟩
    · rintro (⟨q, hq, hjoined, rfl⟩ | rfl)
      · exact ⟨q, hq, .inl hjoined, rfl⟩
      · exact ⟨p, hp, .inr rfl, rfl⟩
    · rintro ⟨q, hq, hjoined | rfl, rfl⟩
      · exact .inl ⟨q, hq, hjoined, rfl⟩
      · exact .inr rfl
  triples s := by
    have houter : outerAll [ofTriple t] = [t] := rfl
    rw [outerAll_append, houter, List.mem_append, List.mem_singleton, h.triples]
    constructor
    · rintro (⟨q, hq, hjoined, hs⟩ | rfl)
      · exact ⟨q, hq, .inl hjoined, hs⟩
      · exact ⟨p, (View.of_triple? hv ht).1, .inr rfl, ht⟩
    · rintro ⟨q, hq, hjoined | rfl, hs⟩
      · exact .inl ⟨q, hq, hjoined, hs⟩
      · exact .inr (Option.some.inj (hs.symm.trans ht))
  nodup := by
    rw [outerAll_append]
    refine List.nodup_append'.2 ⟨h.nodup, List.nodup_singleton t, List.disjoint_singleton.2 ?_⟩
    intro hmem
    obtain ⟨q, -, hjoined, hq⟩ := (h.triples t).1 hmem
    exact hnew (View.triple?_inj hv ht hq ▸ hjoined)
  bound := (boundAll_append _ _ _).2 ⟨h.bound, (h.mem_vars_iff_object hv).1 hsubject, trivial⟩
  front := by
    obtain ⟨joins, hjoins, hblocks⟩ := h.front
    refine ⟨joins ++ [ofTriple t], by rw [hjoins, List.append_assoc], fun e hmem => ?_⟩
    rcases List.mem_append.1 hmem with hmem | hmem
    · exact hblocks e hmem
    · rw [List.mem_singleton.1 hmem]
      rfl

include hroot

theorem Joins.mem_vars_iff (h : Joins v root given joined j) (hp : p ∈ v.paths) :
    Path.toVariable root p ∈ j.vars ↔ joined p := by
  rw [h.vars]
  constructor
  · rintro (heq | ⟨q, hq, hjoined, heq⟩)
    · exact absurd heq (hroot p hp)
    · rwa [View.toVariable_inj hv hp hq heq]
  · exact fun hjoined => .inr ⟨p, hp, hjoined, rfl⟩

theorem Joins.addTriple (h : Joins v root given joined j) (ht : v.triple? root p = some t)
    (hsubject : t.subject ∈ j.vars) :
    Joins v root given (fun q => joined q ∨ q = p) (j.addTriple (ofTriple t)) := by
  obtain ⟨hp, hobject⟩ := View.of_triple? hv ht
  have hhas : j.has (ofTriple t) = true ↔ joined p := by
    rw [← h.mem_vars_iff hv hroot hp, ← hobject, Joined.has, ofTriple, Element.triple,
      Nested.objects, List.map_singleton, List.all_cons, List.all_nil, Bool.and_true,
      List.contains_iff_mem]
  unfold Joined.addTriple
  split
  · rename_i hthere
    refine h.congr fun q _ => ⟨.inl, ?_⟩
    rintro (hq | rfl)
    · exact hq
    · exact hhas.1 hthere
  · rename_i hnew
    rw [hhas] at hnew
    exact h.append_triple hv ht hsubject hnew

/-- **Triples join their paths**, if each subject is there or the object of an earlier one. -/
theorem Joins.foldl_addTriple : ∀ {ts : List Triple} {seen : List String} {joined : Path → Prop}
    {j : Joined}, Joins v root given joined j → (∀ t ∈ ts, ∃ p, v.triple? root p = some t) →
      BoundAll seen (ts.map ofTriple) → (∀ x ∈ seen, x ∈ j.vars) →
      Joins v root given (fun p => joined p ∨ ∃ t ∈ ts, v.triple? root p = some t)
        ((ts.map ofTriple).foldl Joined.addTriple j)
  | [], _, _, _, h, _, _, _ => h.congr fun p _ => by simp
  | t :: ts, seen, joined, j, h, hts, ⟨hsubject, hbound⟩, hseen => by
    obtain ⟨p, ht⟩ := hts t List.mem_cons_self
    obtain ⟨hp, hobject⟩ := View.of_triple? hv ht
    have hnext := h.addTriple hv hroot ht (hseen _ hsubject)
    have hthere : ∀ x ∈ seen ++ [t.object], x ∈ (j.addTriple (ofTriple t)).vars := by
      intro x hx
      rw [hnext.vars]
      rcases List.mem_append.1 hx with hx | hx
      · refine ((h.vars x).1 (hseen x hx)).imp id ?_
        rintro ⟨q, hq, hjoined, rfl⟩
        exact ⟨q, hq, .inl hjoined, rfl⟩
      · rw [List.mem_singleton.1 hx]
        exact .inr ⟨p, hp, .inr rfl, hobject⟩
    refine (Joins.foldl_addTriple hnext (fun s hs => hts s (List.mem_cons_of_mem _ hs)) hbound
      hthere).congr fun q _ => ?_
    rw [or_assoc, List.exists_mem_cons_iff]
    refine or_congr_right (or_congr_left ⟨?_, fun hq => View.triple?_inj hv hq ht⟩)
    rintro rfl
    exact ht

theorem Joins.addChain {path : Path} {chain : List Element} (h : Joins v root given joined j)
    (hchain : Pattern.chain root v path = .ok chain) :
    Joins v root given (fun p => joined p ∨ p <+: path) (chain.foldl Joined.addTriple j) := by
  have hbound := Pattern.boundAll_chain hchain
  have hmem := fun t => Pattern.mem_outerAll_chain (t := t) hchain
  obtain ⟨ts, rfl, -⟩ := Pattern.exists_triples_of_chain hchain
  simp only [outerAll_ofTriple] at hmem
  have hroots : ∀ x ∈ [root], x ∈ j.vars := fun x hx =>
    (h.vars x).2 (.inl (List.mem_singleton.1 hx))
  have hpaths : ∀ t ∈ ts, ∃ p, v.triple? root p = some t := fun t ht =>
    let ⟨p, _, _, hp⟩ := (hmem t).1 ht
    ⟨p, hp⟩
  refine (h.foldl_addTriple hv hroot hpaths hbound hroots).congr fun p hp => ?_
  refine or_congr_right ⟨?_, fun hbegin => ?_⟩
  · rintro ⟨t, ht, hpt⟩
    obtain ⟨q, -, hbegin, hqt⟩ := (hmem t).1 ht
    rwa [View.triple?_inj hv hpt hqt]
  · obtain ⟨t, ht⟩ := View.exists_triple? root hv hp
    exact ⟨t, (hmem t).2 ⟨p, View.ne_nil_of_mem_paths hp, hbegin, ht⟩, ht⟩

/-- **A filter on a value joins the beginnings of its path**, and any other filter nothing. -/
theorem Joins.addFilter (h : Joins v root given joined j) (hf : j.addFilter v root f = .ok result) :
    Joins v root given (fun p => joined p ∨ (f.isOnValue = true ∧ p <+: f.path)) result := by
  cases f with
  | equals path values =>
    obtain ⟨chain, hchain, hfold⟩ := Steps.bind_eq_ok.1 hf
    cases hfold
    exact (h.addChain hv hroot hchain).congr fun p _ => by simp [Filter.isOnValue, Filter.path]
  | range path comparison value =>
    obtain ⟨chain, hchain, hfold⟩ := Steps.bind_eq_ok.1 hf
    cases hfold
    exact (h.addChain hv hroot hchain).congr fun p _ => by simp [Filter.isOnValue, Filter.path]
  | present path mustExist =>
    cases hf
    exact h.congr fun p _ => by simp [Filter.isOnValue]

omit hroot in
theorem joins_mandatory (given : List String) : Joins v root given (fun p => v.isMandatory p = true)
    ⟨given.map Element.raw ++ (Pattern.compile .mandatory root v).elements,
      (Pattern.compile .mandatory root v).vars⟩ where
  vars x := by
    have hvars : (Pattern.compile .mandatory root v).vars.Perm
        (root :: (v.paths.filter v.isMandatory).map (Path.toVariable root)) :=
      (Pattern.perm_vars_mandatory root [] root hv).cons root
    rw [hvars.mem_iff, List.mem_cons, List.mem_map]
    refine or_congr_right (exists_congr fun p => ?_)
    rw [List.mem_filter, and_assoc, @eq_comm _ x]
  triples t := by
    rw [outerAll_append, outerAll_raw, List.nil_append, Pattern.mem_outerAll_mandatory root hv]
  nodup := by
    rw [outerAll_append, outerAll_raw, List.nil_append]
    exact Pattern.nodup_outerAll_mandatory root hv
  bound := by
    refine .append ?_ (Pattern.boundAll_mandatory root v)
    induction given with
    | nil => trivial
    | cons text given ih => exact ⟨trivial, ih⟩
  front := ⟨_, rfl, fun _ => Pattern.isBlock_of_mem_mandatory hv⟩

/-- **What is joined after the filters** are the mandatory paths and the beginnings of those of filters. -/
theorem joins_filters (h : shape.filters.foldlM (Joined.addFilter v root)
    ⟨given.map Element.raw ++ (Pattern.compile .mandatory root v).elements,
      (Pattern.compile .mandatory root v).vars⟩ = .ok result) :
    Joins v root given (IsJoined v shape) result := by
  refine Steps.foldlM_induction (P := fun done j => Joins v root given
    (fun p => v.isMandatory p = true ∨ ∃ f ∈ done, f.isOnValue = true ∧ p <+: f.path) j) ?_ ?_ h
  · exact (joins_mandatory hv given).congr fun p _ => by simp
  · intro done f j result _ hj hf
    refine (hj.addFilter hv hroot hf).congr fun p _ => ?_
    rw [or_assoc]
    refine or_congr_right ?_
    simp only [List.mem_append, List.mem_singleton, or_and_right, exists_or, exists_eq_left]

end Paths

end Nested

end SparqlViews
