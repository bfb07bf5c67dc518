import SparqlViews.Proofs.Pattern.Compiled

/-! # Triples outside of optional groups

What every solution must match are the triples that stand in no optional group. In the pattern of the
mandatory entries these are the triples of the paths without an optional entry (`mem_outerAll_mandatory`),
and along a path those of its beginnings (`mem_outerAll_chain`). Either pattern knows its subjects
(`boundAll_mandatory`, `boundAll_chain`).

* `Element.outerAll`: the triples outside of groups, in order.
* `View.triple?_inj`: no two paths have one triple.
-/

namespace SparqlViews

open Element

namespace Element

variable {l : List Element} {seen : List String} {before after : List Triple} {t : Triple}

/-- The element is a block of triples. -/
def isBlock : Element → Bool
  | .block _ _ => true
  | _ => false

/-- The triples of an element that is no group. -/
def outer : Element → List Triple
  | .block subject pairs => pairs.map fun pair => ⟨subject, pair.1, pair.2⟩
  | _ => []

/-- **The triples of a pattern outside of its groups.** -/
def outerAll (l : List Element) : List Triple := l.flatMap outer

@[simp] theorem outerAll_append (l m : List Element) : outerAll (l ++ m) = outerAll l ++ outerAll m :=
  List.flatMap_append

@[simp] theorem outerAll_raw {α : Type} (f : α → String) (l : List α) :
    outerAll (l.map fun a => .raw (f a)) = [] := by
  rw [outerAll, List.flatMap_map]
  exact List.flatMap_eq_nil_iff.2 fun _ _ => rfl

@[simp] theorem outerAll_map_raw (l : List String) : outerAll (l.map .raw) = [] := outerAll_raw id l

@[simp] theorem outerAll_optional (groups : List (List Element)) :
    outerAll (groups.map Element.optional) = [] := by
  rw [outerAll, List.flatMap_map]
  exact List.flatMap_eq_nil_iff.2 fun _ _ => rfl

@[simp] theorem outerAll_ofTriple (ts : List Triple) : outerAll (ts.map ofTriple) = ts := by
  rw [outerAll, List.flatMap_map]
  exact List.flatMap_singleton' ts

@[simp] theorem outerAll_filter (l : List Element) : outerAll (l.filter (!·.isOptional)) = outerAll l := by
  induction l with
  | nil => rfl
  | cons e l ih =>
    rw [outerAll, List.filter_cons]
    cases e with
    | optional elements => exact ih
    | block subject pairs => exact congrArg (outer (.block subject pairs) ++ ·) ih
    | raw text => exact ih

theorem objects_eq (e : Element) : e.objects = e.outer.map Triple.object := by
  cases e with
  | block subject pairs => simp [objects, outer, Function.comp_def]
  | optional elements => rfl
  | raw text => rfl

theorem flatMap_objects (l : List Element) : l.flatMap objects = (outerAll l).map Triple.object := by
  rw [outerAll, List.map_flatMap, funext objects_eq]

/-- **These triples are the positions in no group.** -/
theorem outerAll_eq_filterMap (l : List Element) : outerAll l =
    (placedAll [] l).filterMap fun position => if position.1.isEmpty then position.2 else none := by
  induction l with
  | nil => rfl
  | cons e l ih =>
    rw [placedAll, List.filterMap_append, ← ih, outerAll, List.flatMap_cons]
    refine congrArg (· ++ outerAll l) ?_
    cases e with
    | block subject pairs => simp [outer, placed, List.filterMap_map]
    | raw text => rfl
    | optional elements =>
      rw [placed, placedAll_eq_under, List.filterMap_map]
      exact (List.filterMap_eq_nil_iff.2 fun position _ => by simp [under]).symm

/-- **Each subject outside of groups is known**, or the object of an earlier triple there. -/
theorem BoundAll.subject (h : BoundAll seen l) (hsplit : outerAll l = before ++ t :: after) :
    t.subject ∈ seen ∨ t.subject ∈ before.map Triple.object := by
  induction l generalizing seen before with
  | nil => cases before <;> cases hsplit
  | cons e l ih =>
    obtain ⟨he, hl⟩ := h
    rw [outerAll, List.flatMap_cons] at hsplit
    rcases List.append_eq_append_iff.1 hsplit with ⟨inner, rfl, hrest⟩ | ⟨inner, hown, hrest⟩
    · -- the triple stands behind the first element
      rcases ih hl hrest with hseen | hinner
      · rw [objects_eq, List.mem_append] at hseen
        rw [List.map_append, List.mem_append]
        exact hseen.imp id Or.inl
      · rw [List.map_append, List.mem_append]
        exact .inr (.inr hinner)
    · rcases inner with _ | ⟨s, inner⟩
      · rw [List.append_nil] at hown
        rw [List.nil_append] at hrest
        have hfirst : outerAll l = [] ++ t :: after := hrest.symm
        rcases ih hl hfirst with hseen | hnone
        · rw [objects_eq, hown, List.mem_append] at hseen
          exact hseen
        · cases hnone
      · obtain ⟨rfl, -⟩ := List.cons.inj hrest
        cases e with
        | block subject pairs =>
          have hmem : t ∈ outer (.block subject pairs) := by
            rw [hown]
            simp
          obtain ⟨pair, -, rfl⟩ := List.mem_map.1 hmem
          exact .inl he
        | optional elements => cases before <;> cases hown
        | raw text => cases before <;> cases hown

theorem BoundAll.filter (h : BoundAll seen l) : BoundAll seen (l.filter (!·.isOptional)) := by
  induction l generalizing seen with
  | nil => exact h
  | cons e l ih =>
    obtain ⟨he, hl⟩ := h
    rw [List.filter_cons]
    cases e with
    | optional elements =>
      have hnone : (Element.optional elements).objects = [] := rfl
      rw [hnone, List.append_nil] at hl
      exact ih hl
    | block subject pairs => exact ⟨he, ih hl⟩
    | raw text => exact ⟨he, ih hl⟩

end Element

namespace View

variable {v : View} {root : String} {p q : Path} {t : Triple}

theorem of_triple? (hv : v.WellFormed) (h : v.triple? root p = some t) :
    p ∈ v.paths ∧ t.object = Path.toVariable root p := by
  obtain ⟨e, he, rfl⟩ := Option.map_eq_some_iff.1 h
  exact ⟨(mem_paths_iff hv).2 (by rw [he]; rfl), rfl⟩

theorem exists_triple? (root : String) (hv : v.WellFormed) (hp : p ∈ v.paths) :
    ∃ t, v.triple? root p = some t := by
  obtain ⟨e, he⟩ := Option.isSome_iff_exists.1 ((mem_paths_iff hv).1 hp)
  exact ⟨_, by rw [triple?, he]; rfl⟩

theorem triple?_inj (hv : v.WellFormed) (hp : v.triple? root p = some t)
    (hq : v.triple? root q = some t) : p = q := by
  obtain ⟨hpmem, hpvar⟩ := of_triple? hv hp
  obtain ⟨hqmem, hqvar⟩ := of_triple? hv hq
  exact toVariable_inj hv hpmem hqmem (hpvar.symm.trans hqvar)

end View

namespace Pattern

variable {v : View} {root subject : String} {base p q : Path} {t : Triple} {elements : List Element}

/-! ### The mandatory pattern -/

theorem elements_mandatory_eq_filter (root : String) (v : View) :
    (compile .mandatory root v).elements = (compile .full root v).elements.filter (!·.isOptional) :=
  (isMandatoryPart_compileUnder root v [] root).elements root

/-- **The triples of the mandatory pattern**, each once. -/
theorem perm_outerAll_mandatory (root : String) (hv : v.WellFormed) :
    (outerAll (compile .mandatory root v).elements).Perm
      ((v.paths.filter v.isMandatory).filterMap (v.triple? root)) := by
  have hplaced : (placedAll [] (compile .full root v).elements).Perm
      (v.paths.map (v.positionAt root [])) := perm_placedAll_patternAt root [] hv
  rw [elements_mandatory_eq_filter, outerAll_filter, outerAll_eq_filterMap, List.filterMap_filter]
  refine (hplaced.filterMap _).trans ?_
  rw [List.filterMap_map]
  refine .of_eq (List.filterMap_congr fun p _ => ?_)
  rw [Function.comp_apply, View.positionAt, List.isEmpty_map]
  rfl

theorem mem_outerAll_mandatory (root : String) (hv : v.WellFormed) :
    t ∈ outerAll (compile .mandatory root v).elements ↔
      ∃ p ∈ v.paths, v.isMandatory p = true ∧ v.triple? root p = some t := by
  rw [(perm_outerAll_mandatory root hv).mem_iff, List.mem_filterMap]
  simp only [List.mem_filter, and_assoc]

theorem nodup_outerAll_mandatory (root : String) (hv : v.WellFormed) :
    (outerAll (compile .mandatory root v).elements).Nodup := by
  rw [(perm_outerAll_mandatory root hv).nodup_iff]
  exact ((View.nodup_paths hv).filter _).filterMap fun _ _ _ hp hq => View.triple?_inj hv hp hq

theorem boundAll_mandatory (root : String) (v : View) :
    BoundAll [root] (compile .mandatory root v).elements := by
  rw [elements_mandatory_eq_filter]
  exact ((partsBound_compileUnder root v [] root [root] (by simp)).elements (by simp)).filter

theorem isBlock_of_mem_mandatory (hv : v.WellFormed) {e : Element}
    (h : e ∈ (compile .mandatory root v).elements) : e.isBlock = true := by
  rw [elements_mandatory_eq_filter] at h
  obtain ⟨hmem, hoptional⟩ := List.mem_filter.1 h
  cases e with
  | block subject pairs => rfl
  | optional elements => cases hoptional
  | raw text =>
    -- a text stands for no triple, and each position has the triple of a path
    have hplaced : ([], none) ∈ placedAll [] (compile .full root v).elements := by
      rw [placedAll_eq]
      exact List.mem_flatMap.2 ⟨_, hmem, List.mem_singleton_self _⟩
    have hperm := perm_placedAll_patternAt root [] hv
    obtain ⟨p, hp, hposition⟩ := List.mem_map.1 (hperm.mem_iff.1 hplaced)
    obtain ⟨t, ht⟩ := View.exists_triple? root hv hp
    have hnone : v.triple? root p = none := congrArg Prod.snd hposition
    rw [hnone] at ht
    cases ht

/-! ### Chains -/

/-- **Every subject of a chain is known** from the one that it begins with. -/
theorem boundAll_chainFrom? (h : chainFrom? root subject base v p = some elements) :
    BoundAll [subject] elements := by
  induction p generalizing subject base v elements with
  | nil => cases h
  | cons name p ih =>
    rcases eq_or_ne p [] with rfl | hp
    · obtain ⟨e, -, h⟩ := Option.bind_eq_some_iff.1 h
      cases h
      exact ⟨List.mem_singleton_self _, trivial⟩
    · rw [chainFrom?_cons subject base name hp] at h
      obtain ⟨e, -, h⟩ := Option.bind_eq_some_iff.1 h
      obtain ⟨sub, -, h⟩ := Option.bind_eq_some_iff.1 h
      obtain ⟨more, hmore, rfl⟩ := Option.map_eq_some_iff.1 h
      refine ⟨List.mem_singleton_self _, (ih hmore).mono ?_⟩
      exact List.subset_append_right _ _

theorem chainFrom?_of_chain (h : chain root v p = .ok elements) :
    chainFrom? root root [] v p = some elements := by
  unfold chain at h
  split at h
  · rename_i hchain
    rw [hchain, Except.ok.inj h]
  · cases h

theorem boundAll_chain (h : chain root v p = .ok elements) : BoundAll [root] elements :=
  boundAll_chainFrom? (chainFrom?_of_chain h)

/-- **A chain consists of the triples of the beginnings of its path.** -/
theorem exists_triples_of_chain (h : chain root v p = .ok elements) : ∃ ts : List Triple,
    elements = ts.map ofTriple ∧
      ts.map some = (Path.ancestors p ++ [p]).map (v.triple? root) := by
  have hroot : chainFrom? root (Path.toVariable root []) [] v p = some elements :=
    chainFrom?_of_chain h
  have hmap : elements.map some =
      (Path.ancestors p ++ [p]).map fun q => (v.triple? root q).map ofTriple := chainFrom?_eq hroot
  generalize Path.ancestors p ++ [p] = beginnings at hmap ⊢
  clear h hroot
  induction beginnings generalizing elements with
  | nil => exact ⟨[], by simpa using hmap, rfl⟩
  | cons q beginnings ih =>
    obtain ⟨e, elements, rfl⟩ := List.exists_cons_of_length_pos (l := elements) (by
      have := congrArg List.length hmap
      simp at this
      omega)
    obtain ⟨he, hrest⟩ := List.cons.inj hmap
    obtain ⟨t, ht, rfl⟩ := Option.map_eq_some_iff.1 he.symm
    obtain ⟨ts, rfl, hts⟩ := ih hrest
    exact ⟨t :: ts, rfl, by rw [List.map_cons, List.map_cons, hts, ht]⟩

theorem mem_outerAll_chain (h : chain root v p = .ok elements) :
    t ∈ outerAll elements ↔ ∃ q, q ≠ [] ∧ q <+: p ∧ v.triple? root q = some t := by
  obtain ⟨ts, rfl, hts⟩ := exists_triples_of_chain h
  have hp : p ≠ [] := by
    rintro rfl
    cases chainFrom?_of_chain h
  have hmem : t ∈ ts ↔ some t ∈ ts.map some := by simp
  rw [outerAll_ofTriple, hmem, hts, List.mem_map]
  refine exists_congr fun q => ?_
  rw [Path.mem_ancestors_append hp, and_assoc]

theorem chain_inj (hv : v.WellFormed) (hpmem : p ∈ v.paths) (hqmem : q ∈ v.paths)
    (hp : chain root v p = .ok elements) (hq : chain root v q = .ok elements) : p = q := by
  have hbegin : ∀ {p q : Path}, p ∈ v.paths → chain root v p = .ok elements →
      chain root v q = .ok elements → p <+: q := by
    intro p q hpmem hp hq
    obtain ⟨t, ht⟩ := View.exists_triple? root hv hpmem
    obtain ⟨r, -, hr, hrt⟩ := (mem_outerAll_chain hq).1
      ((mem_outerAll_chain hp).2 ⟨p, View.ne_nil_of_mem_paths hpmem, List.prefix_rfl, ht⟩)
    rwa [View.triple?_inj hv ht hrt]
  exact (hbegin hpmem hp hq).eq_of_length_le (hbegin hqmem hq hp).length_le

end Pattern

end SparqlViews
