import SparqlViews.Proofs.Text.Occurrence
import SparqlViews.Proofs.View.Lookup

/-! # How names are looked up

A name without a dot may stand at several positions of a view, which are its entries of this name in the
order of their levels (`View.mem_positions_iff`, `View.pairwise_positions`). The three ways of looking it up
differ in what they make of these (`View.resolve_breadthFirst`, `View.resolve_unambiguous`,
`View.resolve_qualified`); a name with a dot is a path in all of them (`View.resolve_dotted`).

* `View.IsFirst`: the first entry of a kind.
* `Path.ofDotted_toDotted`: a path of legal names is read back from its dotted form.
* `names_found_level_by_level`: positions, answers, and how the answers agree.
-/

namespace SparqlViews

/-! ### Dotted forms -/

theorem Naming.dot_not_mem {name : String} (h : isShortName name = true) : '.' ∉ name.toList := by
  intro hmem
  have hdot := isNameChar_of_mem h '.' hmem
  revert hdot
  decide

/-- **Parts without a separator are the fields** of the text in which they are joined by it. -/
theorem Text.fields_intercalate {separator : Char} {parts : List (List Char)} (hne : parts ≠ [])
    (h : ∀ part ∈ parts, separator ∉ part) :
    fields separator (List.intercalate [separator] parts) = parts := by
  induction parts with
  | nil => exact absurd rfl hne
  | cons part parts ih =>
    have hpart := h part List.mem_cons_self
    cases parts with
    | nil => rw [List.intercalate_singleton, fields_of_not_mem hpart]
    | cons next parts =>
      rw [List.intercalate_cons_cons, List.append_assoc, List.singleton_append,
        fields_append_cons hpart, ih (List.cons_ne_nil _ _) fun p hp => h p (List.mem_cons_of_mem _ hp)]

namespace Path

variable {p : Path}

theorem toList_toDotted (p : Path) : p.toDotted.toList = List.intercalate ['.'] (p.map String.toList) :=
  String.toList_intercalate

theorem dot_mem_toDotted_iff (h : Naming.Legal p) : '.' ∈ p.toDotted.toList ↔ 1 < p.length := by
  rw [toList_toDotted]
  rcases p with _ | ⟨name, _ | ⟨next, p⟩⟩
  · simp [List.intercalate]
  · simpa using Naming.dot_not_mem (h name List.mem_cons_self)
  · simp [List.intercalate_cons_cons]

theorem ofDotted_toDotted (h : Naming.Legal p) : ofDotted p.toDotted = p := by
  rcases eq_or_ne p [] with rfl | hp
  · rfl
  have hfields : Text.fields '.' p.toDotted.toList = p.map String.toList := by
    rw [toList_toDotted, Text.fields_intercalate (by simpa using hp)]
    intro part hpart
    obtain ⟨name, hname, rfl⟩ := List.mem_map.1 hpart
    exact Naming.dot_not_mem (h name hname)
  have hne : p.toDotted ≠ "" := by
    intro hempty
    rw [hempty] at hfields
    obtain ⟨name, rest, rfl⟩ := List.exists_cons_of_ne_nil hp
    obtain ⟨c, _, hname, -⟩ := Naming.toList_of_isShortName (h name List.mem_cons_self)
    rw [List.map_cons, hname] at hfields
    cases hfields
  rw [ofDotted, if_neg (by simpa using hne), Text.split, hfields, List.map_map]
  simp [Function.comp_def]

end Path

namespace View

variable {v : View} {name iri : String} {p q : Path} {e : Entry}

/-! ### Positions -/

/-- **An entry has the last name of its path.** -/
theorem getLast?_of_find? (h : v.find? p = some e) : p.getLast? = some e.name := by
  induction p generalizing v with
  | nil => exact absurd rfl (ne_nil_of_find? h)
  | cons name q ih =>
    obtain ⟨d, hget, ⟨rfl, rfl⟩ | ⟨sub, -, h⟩⟩ := exists_of_find?_cons h
    · rw [name_of_get? hget]
      rfl
    · rw [List.getLast?_cons_of_ne_nil (ne_nil_of_find? h), ih h]

theorem mem_positions_iff (hv : v.WellFormed) :
    p ∈ v.positions name ↔ ∃ e, v.find? p = some e ∧ e.name = name := by
  rw [positions_eq, List.mem_map]
  constructor
  · rintro ⟨⟨p, e⟩, hfound, rfl⟩
    obtain ⟨hmem, hname⟩ := List.mem_filter.1 hfound
    exact ⟨e, (mem_breadthFirst_iff hv).1 hmem, of_decide_eq_true hname⟩
  · rintro ⟨e, he, hname⟩
    exact ⟨(p, e), List.mem_filter.2 ⟨(mem_breadthFirst_iff hv).2 he, decide_eq_true hname⟩, rfl⟩

theorem pairwise_positions (hv : v.WellFormed) (name : String) :
    (v.positions name).Pairwise v.Precedes := by
  rw [positions_eq]
  exact (pairwise_breadthFirst hv).sublist (List.filter_sublist.map _)

theorem head?_positions (hv : v.WellFormed) (h : name ∈ v.names) :
    (v.positions name).head? = some [name] := by
  obtain ⟨e, he⟩ := Option.isSome_iff_exists.1 (get?_isSome.2 h)
  have hmem : [name] ∈ v.positions name :=
    (mem_positions_iff hv).2 ⟨e, by simp [he], name_of_get? he⟩
  have hpairwise := pairwise_positions hv name
  cases hpositions : v.positions name with
  | nil => simp [hpositions] at hmem
  | cons first more =>
    rw [hpositions] at hmem hpairwise
    rcases List.mem_cons.1 hmem with rfl | hmore
    · rfl
    · -- a first position before this one would be at the top too, under the same name
      have hfirst := List.rel_of_pairwise_cons hpairwise hmore
      obtain ⟨d, hd, hname⟩ := (mem_positions_iff hv).1 (hpositions ▸ List.mem_cons_self)
      have hlen : first.length = 1 := by
        have hpos := List.length_pos_iff.2 (ne_nil_of_find? hd)
        rcases hfirst with hlt | ⟨heq, -⟩
        · simp only [List.length_singleton] at hlt
          omega
        · exact heq
      obtain ⟨other, rfl⟩ := List.length_eq_one_iff.1 hlen
      have hother := getLast?_of_find? hd
      rw [List.getLast?_singleton, hname] at hother
      exact absurd (congrArg (fun n => [n]) (Option.some.inj hother)) hfirst.ne

/-! ### Answers -/

theorem resolve_dotted (lookup : Lookup) (h : '.' ∈ name.toList) : v.resolve lookup name =
    if (v.find? (.ofDotted name)).isSome then .ok (.ofDotted name) else .error (.pathNotFound name) := by
  unfold resolve
  rw [if_pos (by simpa using h)]

section Plain

variable (h : '.' ∉ name.toList)
include h

theorem resolve_qualified : v.resolve .qualified name =
    if name ∈ v.names then .ok [name] else .error (.pathNotFound name) := by
  rw [resolve, if_neg (by simpa using h)]
  simp only [get?_isSome]

theorem resolve_breadthFirst : v.resolve .breadthFirst name =
    match v.positions name with
    | [] => .error (.pathNotFound name)
    | p :: _ => .ok p := by
  have hfirst := Search.next?_start (fun e => decide (e.name = name)) v
  rw [resolve, if_neg (by simpa using h), positions]
  cases hall : (Search.start v).all fun e => decide (e.name = name) with
  | nil =>
    rw [hall, List.head?_nil, Option.map_eq_none_iff] at hfirst
    simp [hfirst]
  | cons found more =>
    rw [hall, List.head?_cons, Option.map_eq_some_iff] at hfirst
    obtain ⟨⟨found, after⟩, hnext, rfl⟩ := hfirst
    simp [hnext]

theorem resolve_unambiguous : v.resolve .unambiguous name =
    match v.positions name with
    | [] => .error (.pathNotFound name)
    | [p] => .ok p
    | candidates => .error (.ambiguousName name (candidates.map Path.toDotted)) := by
  rcases hpositions : v.positions name with _ | ⟨p, _ | ⟨q, more⟩⟩ <;> simp [resolve, h, hpositions]

end Plain

/-- **What any way of looking up gives, the search level by level gives too.** -/
theorem resolve_breadthFirst_of_resolve (hv : v.WellFormed) {lookup : Lookup}
    (h : v.resolve lookup name = .ok p) : v.resolve .breadthFirst name = .ok p := by
  by_cases hdot : '.' ∈ name.toList
  · rw [resolve_dotted _ hdot] at h ⊢
    exact h
  · cases lookup with
    | breadthFirst => exact h
    | unambiguous =>
      rw [resolve_unambiguous hdot] at h
      rw [resolve_breadthFirst hdot]
      split at h
      · cases h
      · rename_i only hpositions
        rw [hpositions]
        exact h
      · cases h
    | qualified =>
      rw [resolve_qualified hdot] at h
      split at h
      · rename_i hname
        have hfirst := head?_positions hv hname
        cases hpositions : v.positions name with
        | nil => simp [hpositions] at hfirst
        | cons first more =>
          rw [hpositions, List.head?_cons] at hfirst
          rw [resolve_breadthFirst hdot, hpositions, Option.some.inj hfirst]
          exact h
      · cases h

/-! ### First entries -/

/-- **The first entry of a kind**, by level and by its place in the document. -/
structure IsFirst (v : View) (kind : Entry → Prop) (p : Path) (e : Entry) : Prop where
  found : v.find? p = some e
  fits : kind e
  first : ∀ q d, v.find? q = some d → kind d → q ≠ p → v.Precedes p q

theorem IsFirst.unique {kind : Entry → Prop} {d : Entry} (h : v.IsFirst kind p e)
    (h' : v.IsFirst kind q d) : p = q ∧ e = d := by
  have hp : p = q := by
    by_contra hne
    exact (h.first q d h'.found h'.fits (Ne.symm hne)).not_symm (h'.first p e h.found h.fits hne)
  subst hp
  exact ⟨rfl, Option.some.inj (h.found.symm.trans h'.found)⟩

/-- **The search for an entry of a kind ends at the first.** -/
theorem isFirst_of_next? (hv : v.WellFormed) {test : Entry → Bool}
    (h : ((Search.start v).next? test).map (·.1) = some (p, e)) :
    v.IsFirst (fun e => test e = true) p e := by
  rw [Search.next?_start, Search.all_start] at h
  have hpairwise : (v.breadthFirst.filter fun found => test found.2).Pairwise fun x y =>
      v.Precedes x.1 y.1 := by
    exact (List.pairwise_map.1 (pairwise_breadthFirst hv)).filter _
  cases hall : v.breadthFirst.filter fun found => test found.2 with
  | nil => simp [hall] at h
  | cons found more =>
    rw [hall] at h hpairwise
    obtain rfl : found = (p, e) := Option.some.inj h
    have hmem : ∀ q d, v.find? q = some d ∧ test d = true ↔ (q, d) = (p, e) ∨ (q, d) ∈ more := by
      intro q d
      rw [← mem_breadthFirst_iff hv, ← List.mem_cons, ← hall, List.mem_filter]
    obtain ⟨hfound, htest⟩ := (hmem p e).2 (.inl rfl)
    refine ⟨hfound, htest, fun q d hd hkind hne => ?_⟩
    rcases (hmem q d).1 ⟨hd, hkind⟩ with heq | hmore
    · exact absurd (Prod.mk.inj heq).1 hne
    · exact List.rel_of_pairwise_cons hpairwise hmore

theorem next?_eq_none_iff (hv : v.WellFormed) {test : Entry → Bool} :
    ((Search.start v).next? test).map (·.1) = none ↔ ∀ p e, v.find? p = some e → test e = false := by
  rw [Search.next?_start, Search.all_start, List.head?_eq_none_iff, List.filter_eq_nil_iff]
  simp only [Prod.forall, mem_breadthFirst_iff hv, Bool.not_eq_true]

theorem findIri?_eq_some_iff (hv : v.WellFormed) :
    v.findIri? iri = some (p, e) ↔ v.IsFirst (fun e => e.property.iri = iri) p e := by
  have hfirst : ∀ {p : Path} {e : Entry}, v.findIri? iri = some (p, e) →
      v.IsFirst (fun e => e.property.iri = iri) p e := by
    intro p e h
    obtain ⟨hfound, hfits, hall⟩ := isFirst_of_next? hv h
    exact ⟨hfound, of_decide_eq_true hfits, fun q d hd hkind => hall q d hd (decide_eq_true hkind)⟩
  refine ⟨hfirst, fun h => ?_⟩
  cases hfind : v.findIri? iri with
  | none =>
    have hnone := (next?_eq_none_iff hv).1 hfind p e h.found
    exact absurd h.fits (of_decide_eq_false hnone)
  | some found =>
    obtain ⟨rfl, rfl⟩ := (hfirst hfind).unique h
    rfl

theorem findIri?_eq_none_iff (hv : v.WellFormed) :
    v.findIri? iri = none ↔ ∀ p e, v.find? p = some e → e.property.iri ≠ iri := by
  rw [findIri?, next?_eq_none_iff hv]
  simp only [decide_eq_false_iff_not, ne_eq]

/-- **Names are found level by level.** The positions of a name are the entries that have it, each once, by
their levels and on one level as in the document. Without a dot, the search level by level gives the first
of them, the unambiguous one the only one, and the qualified one an entry at the top; whatever one of them
gives, the search level by level gives. With a dot, each of them gives the path that is written, if the
view has it. And the entry of a property is the first in the same order. -/
theorem names_found_level_by_level (hv : v.WellFormed) (name iri : String) :
    ((∀ p, p ∈ v.positions name ↔ ∃ e, v.find? p = some e ∧ e.name = name) ∧
      (v.positions name).Nodup ∧ (v.positions name).Pairwise v.Precedes) ∧
    ('.' ∉ name.toList →
      (v.resolve .breadthFirst name =
        match v.positions name with
        | [] => .error (.pathNotFound name)
        | p :: _ => .ok p) ∧
      (v.resolve .unambiguous name =
        match v.positions name with
        | [] => .error (.pathNotFound name)
        | [p] => .ok p
        | candidates => .error (.ambiguousName name (candidates.map Path.toDotted))) ∧
      v.resolve .qualified name =
        if name ∈ v.names then .ok [name] else .error (.pathNotFound name)) ∧
    ('.' ∈ name.toList → ∀ lookup, v.resolve lookup name =
      if .ofDotted name ∈ v.paths then .ok (.ofDotted name) else .error (.pathNotFound name)) ∧
    (∀ lookup p, v.resolve lookup name = .ok p → v.resolve .breadthFirst name = .ok p) ∧
    (∀ p e, v.findIri? iri = some (p, e) ↔ v.IsFirst (fun e => e.property.iri = iri) p e) ∧
    (v.findIri? iri = none ↔ ∀ p e, v.find? p = some e → e.property.iri ≠ iri) := by
  have hpairwise := pairwise_positions hv name
  have hnodup : (v.positions name).Nodup := hpairwise.imp Precedes.ne
  refine ⟨⟨fun p => mem_positions_iff hv, hnodup, hpairwise⟩, fun h => ?_, fun h lookup => ?_,
    fun lookup p => resolve_breadthFirst_of_resolve hv, fun p e => findIri?_eq_some_iff hv,
    findIri?_eq_none_iff hv⟩
  · exact ⟨resolve_breadthFirst h, resolve_unambiguous h, resolve_qualified h⟩
  · rw [resolve_dotted lookup h]
    simp only [mem_paths_iff hv]

/-- An area with a label, a part with one two levels below, and a label at the top. -/
def labelledView : View :=
  .nested { name := "part", iri := "http://e/part" }
    (.nested { name := "unit", iri := "http://e/unit" }
      (.leaf { name := "label", iri := "http://e/label" } .empty) .empty)
    (.nested { name := "area", iri := "http://e/area" }
      (.leaf { name := "label", iri := "http://e/label" } .empty)
      (.leaf { name := "label", iri := "http://e/name" } .empty))

/-- Of three labels the one at the top is the first; the first with the property of labels is that of the
area, which stands above the unit although it comes after it in the document. -/
theorem names_found_level_by_level_of_label :
    labelledView.WellFormed ∧
    labelledView.positions "label" = [["label"], ["area", "label"], ["part", "unit", "label"]] ∧
    (labelledView.positions "label").Pairwise labelledView.Precedes ∧
    labelledView.resolve .breadthFirst "label" = .ok ["label"] ∧
    labelledView.resolve .unambiguous "label" =
      .error (.ambiguousName "label" ["label", "area.label", "part.unit.label"]) ∧
    labelledView.resolve .qualified "label" = .ok ["label"] ∧
    labelledView.resolve .qualified "part.unit" = .ok ["part", "unit"] ∧
    labelledView.IsFirst (fun e => e.property.iri = "http://e/label") ["area", "label"]
      ⟨{ name := "label", iri := "http://e/label" }, none⟩ := by
  have hv : labelledView.WellFormed := by decide
  have hpositions : labelledView.positions "label" =
      [["label"], ["area", "label"], ["part", "unit", "label"]] := by decide
  obtain ⟨⟨-, -, hpairwise⟩, hplain, -, -, hiri, -⟩ :=
    names_found_level_by_level hv "label" "http://e/label"
  obtain ⟨-, -, hdotted, -⟩ := names_found_level_by_level hv "part.unit" "http://e/label"
  obtain ⟨hbreadth, hunambiguous, hqualified⟩ := hplain (by decide)
  rw [hpositions] at hbreadth hunambiguous
  exact ⟨hv, hpositions, hpairwise, hbreadth, hunambiguous, hqualified.trans (by decide),
    (hdotted (by decide) .qualified).trans (by decide), (hiri _ _).1 (by decide)⟩

end View

end SparqlViews
