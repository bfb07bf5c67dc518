import Mathlib.Data.List.Nodup
import SparqlViews.Document.Build
import SparqlViews.Proofs.Steps
import SparqlViews.Proofs.Term.Token
import SparqlViews.Proofs.View.Paths

/-! # Views built from definitions

A list of definitions becomes a view as a whole or not at all. What is asked of it is said of the
list and of the lists nested in it at every depth, which are its levels: `IsSound` is about one list,
`Level` finds them. The view that is built mirrors the list, definition by definition (`Mirrors`).

* `localName_eq_iff`: the name of an entry without one is the end of its property.
* `Definition.induction`: what holds of a definition if it holds of all that are nested in it, holds
  of every definition.
* `entry_eq_ok_iff`, `view_eq_ok_iff`, `buildFrom_cons_eq_ok`: when the entry of a definition, the
  view nested in it and the view of a list are built, each in terms of the others.
* `definitions_build_all_or_nothing`: the main result.
-/

namespace SparqlViews

open Token (takeWhile_run dropWhile_run)

/-! ### Names without settings -/

/-- A character that the front part of a property may end with. -/
def isNameSeparator (c : Char) : Bool := c = '#' || c = '/' || c = ':'

/-- **The end of a property**: without its outer angle brackets, what follows the last `#`, `/` or
`:`, or all of it. -/
def IsLocalName (prop name : String) : Prop :=
  ∃ opening front closing, prop.toList = opening ++ (front ++ name.toList) ++ closing ∧
    (∀ c ∈ opening, c = '<') ∧ (∀ c ∈ closing, c = '>') ∧
    (∀ c ∈ (front ++ name.toList).head?, c ≠ '<') ∧
    (∀ c ∈ (front ++ name.toList).getLast?, c ≠ '>') ∧
    (∀ c ∈ front.getLast?, isNameSeparator c = true) ∧
    ∀ c ∈ name.toList, isNameSeparator c = false

section LocalName

variable {p : Char → Bool} {front run : List Char}

theorem exists_eq_append_run (p : Char → Bool) (cs : List Char) :
    ∃ front run, cs = front ++ run ∧ (∀ c ∈ run, p c = true) ∧ ∀ c ∈ front.getLast?, p c = false := by
  refine ⟨(cs.reverse.dropWhile p).reverse, (cs.reverse.takeWhile p).reverse, ?_, fun c hc => ?_,
    fun c hc => ?_⟩
  · rw [← List.reverse_append, List.takeWhile_append_dropWhile, List.reverse_reverse]
  · exact List.mem_takeWhile_imp (List.mem_reverse.1 hc)
  · rw [List.getLast?_reverse] at hc
    have := List.head?_dropWhile_not p cs.reverse
    rw [Option.mem_def.1 hc] at this
    simpa using this

theorem takeWhile_reverse_append (hrun : ∀ c ∈ run, p c = true)
    (hfront : ∀ c ∈ front.getLast?, p c = false) : (front ++ run).reverse.takeWhile p = run.reverse := by
  rw [List.reverse_append]
  refine takeWhile_run (fun c hc => hrun c (List.mem_reverse.1 hc)) fun c hc => hfront c ?_
  rwa [List.head?_reverse] at hc

theorem dropWhile_reverse_append (hrun : ∀ c ∈ run, p c = true)
    (hfront : ∀ c ∈ front.getLast?, p c = false) : (front ++ run).reverse.dropWhile p = front.reverse := by
  rw [List.reverse_append]
  refine dropWhile_run (fun c hc => hrun c (List.mem_reverse.1 hc)) fun c hc => hfront c ?_
  rwa [List.head?_reverse] at hc

theorem localName_of_isLocalName {prop name : String} (h : IsLocalName prop name) :
    localName prop = name := by
  obtain ⟨opening, front, closing, hprop, hopening, hclosing, hhead, hlast, hfront, hname⟩ := h
  have hopened : prop.toList.dropWhile (· = '<') = front ++ name.toList ++ closing := by
    rw [hprop, List.append_assoc]
    refine dropWhile_run (by simpa using hopening) fun c hc => ?_
    rw [List.head?_append] at hc
    rcases Option.or_eq_some_iff.1 hc with hc | ⟨-, hc⟩
    · simpa using hhead c hc
    · simp [hclosing c (List.mem_of_head? hc)]
  have htrimmed : (front ++ name.toList ++ closing).reverse.dropWhile (· = '>') =
      (front ++ name.toList).reverse :=
    dropWhile_reverse_append (by simpa using hclosing) (by simpa using hlast)
  have htaken : (front ++ name.toList).reverse.takeWhile
      (fun c => c ≠ '#' && c ≠ '/' && c ≠ ':') = name.toList.reverse :=
    takeWhile_reverse_append (fun c hc => by simpa [isNameSeparator, and_assoc] using hname c hc)
      fun c hc => by simpa [isNameSeparator, or_assoc, imp_iff_not_or] using hfront c hc
  unfold localName
  dsimp only
  rw [hopened, htrimmed, htaken, List.reverse_reverse, String.ofList_toList]

theorem exists_isLocalName (prop : String) : ∃ name, IsLocalName prop name := by
  obtain ⟨trimmed, closing, hcut, hclosing, hlast⟩ :=
    exists_eq_append_run (· = '>') (prop.toList.dropWhile (· = '<'))
  obtain ⟨front, run, htrimmed, hrun, hfront⟩ := exists_eq_append_run (!isNameSeparator ·) trimmed
  refine ⟨String.ofList run, prop.toList.takeWhile (· = '<'), front, closing, ?_, fun c hc => ?_,
    by simpa using hclosing, fun c hc => ?_, ?_, by simpa using hfront, by simpa using hrun⟩
  · rw [String.toList_ofList, ← htrimmed, List.append_assoc, ← hcut, List.takeWhile_append_dropWhile]
  · simpa using List.mem_takeWhile_imp hc
  · rw [String.toList_ofList, ← htrimmed] at hc
    have hhead := List.head?_dropWhile_not (fun c : Char => decide (c = '<')) prop.toList
    rw [hcut, List.head?_append, Option.mem_def.1 hc] at hhead
    simpa using hhead
  · rw [String.toList_ofList, ← htrimmed]
    simpa using hlast

theorem localName_eq_iff {prop name : String} : localName prop = name ↔ IsLocalName prop name := by
  refine ⟨fun h => ?_, localName_of_isLocalName⟩
  obtain ⟨_, hlocal⟩ := exists_isLocalName prop
  exact h ▸ localName_of_isLocalName hlocal ▸ hlocal

end LocalName

/-! ### What a definition asks for -/

namespace Definition

/-- The settings of a definition. A property alone has the defaults. -/
def spec : Definition → EntrySpec
  | .short prop => { prop }
  | .full spec _ => spec

/-- What a definition says about the entries below its own. -/
def nested : Definition → Nested
  | .short _ => .absent
  | .full _ nested => nested

/-- **The short name of a definition**: the one it gives, or else the end of its property. -/
def shortName (d : Definition) : String := d.spec.name.getD (localName d.spec.prop)

/-- **What holds of a definition if it holds of those nested in it holds of all.** -/
theorem induction {P : Definition → Prop}
    (step : ∀ d, (∀ raw below, d.nested = .children raw below → ∀ c ∈ below, P c) → P d) :
    ∀ d, P d
  | .short prop => step (.short prop) fun _ _ h => nomatch h
  | .full spec .absent => step (.full spec .absent) fun _ _ h => nomatch h
  | .full spec (.notList raw) => step (.full spec (.notList raw)) fun _ _ h => nomatch h
  | .full spec (.badChild raw position cause) =>
    step (.full spec (.badChild raw position cause)) fun _ _ h => nomatch h
  | .full spec (.children raw below) => step (.full spec (.children raw below)) fun _ _ h c hc => by
    cases h
    exact induction step c
termination_by d => sizeOf d
decreasing_by
  have := List.sizeOf_lt_of_mem hc
  simp only [full.sizeOf_spec, Nested.children.sizeOf_spec]
  omega

end Definition

/-- A setting that names an IRI: expanded if it can be, or else as it is. -/
inductive Prefixes.Settles (labels : Prefixes) (s : String) : String → Prop
  | expanded {iri : String} (h : labels.expandOrAbsolute? s = some iri) : Settles labels s iri
  | verbatim (h : labels.expandOrAbsolute? s = none) : Settles labels s s

/-- **The settings of an entry are those of its definition.** -/
structure HasSettings (labels : Prefixes) (d : Definition) (p : Property) : Prop where
  iri : labels.expandOrAbsolute? d.spec.prop = some p.iri
  name : p.name = d.shortName
  optional : p.optional = d.spec.optional
  multi : p.multi = d.spec.multi
  filterable : p.filterable = d.spec.filterable
  hidden : p.hidden = d.spec.hidden
  suppressId : p.suppressId = d.spec.suppressId
  comment : p.comment = d.spec.comment
  range : Option.Rel labels.Settles d.spec.range p.range
  valueBase : Option.Rel labels.Settles d.spec.valueBase p.valueBase

/-- **An entry mirrors a definition**: it has its settings, and a view of its own exactly if entries
are nested in the definition; that view has the entries that mirror those, in their order. -/
inductive Mirrors (labels : Prefixes) : Definition → Entry → Prop
  | leaf {d : Definition} {p : Property} (settings : HasSettings labels d p)
    (nested : d.nested = .absent) : Mirrors labels d ⟨p, none⟩
  | nested {d : Definition} {p : Property} {raw : List Data} {below : List Definition} {v : View}
    (settings : HasSettings labels d p) (nested : d.nested = .children raw below)
    (mirrors : List.Forall₂ (Mirrors labels) below v.entries) : Mirrors labels d ⟨p, some v⟩

/-- **The levels of a list of definitions**: the list itself, and the levels of each list nested in
one of its definitions. -/
inductive Level : List Definition → List Definition → Prop
  | top {ds : List Definition} : Level ds ds
  | inner {ds below level : List Definition} {d : Definition} {raw : List Data} (mem : d ∈ ds)
    (nested : d.nested = .children raw below) (level_below : Level below level) : Level ds level

/-- **What is asked of each level**: every property expands to an IRI, every name is legal, no name
stands twice, and what is nested in a definition is a list of definitions if it is there at all. -/
structure IsSound (labels : Prefixes) (level : List Definition) : Prop where
  iri : ∀ d ∈ level, ∃ iri, labels.expandOrAbsolute? d.spec.prop = some iri
  legal : ∀ d ∈ level, Naming.isShortName d.shortName = true
  distinct : (level.map Definition.shortName).Nodup
  nested : ∀ d ∈ level, d.nested = .absent ∨ ∃ raw below, d.nested = .children raw below

/-! ### Entries pushed in turn -/

namespace View

@[simp] theorem entries_cons (e : Entry) (v : View) : (cons e v).entries = e :: v.entries := by
  obtain ⟨p, _ | sub⟩ := e <;> rfl

@[simp] theorem entries_concat (v : View) (e : Entry) : (v.concat e).entries = v.entries ++ [e] := by
  induction v with
  | empty => simp [concat, entries]
  | leaf p rest ih => simp [concat, entries, ih]
  | nested p sub rest _ ih => simp [concat, entries, ih]

theorem names_eq (v : View) : v.names = v.entries.map Entry.name := by
  induction v with
  | empty => rfl
  | leaf p rest ih => exact congrArg (p.name :: ·) ih
  | nested p sub rest _ ih => exact congrArg (p.name :: ·) ih

@[simp] theorem names_concat (v : View) (e : Entry) : (v.concat e).names = v.names ++ [e.name] := by
  rw [names_eq, entries_concat, List.map_append, ← names_eq, List.map_singleton]

theorem push_eq_ok_iff {v w : View} {e : Entry} : v.push e = .ok w ↔
    Naming.isShortName e.name = true ∧ e.name ∉ v.names ∧ w = v.concat e := by
  rw [push, ← get?_isSome]
  cases Naming.isShortName e.name with
  | false => simp
  | true =>
    cases (v.get? e.name).isSome with
    | true => simp
    | false => simp [eq_comm]

theorem exists_fault_of_push {v : View} {e : Entry} {error : ViewError} (h : v.push e = .error error) :
    ∃ fault, error = .malformed fault := by
  unfold push at h
  split at h
  · exact ⟨_, (Except.error.inj h).symm⟩
  · split at h
    · exact ⟨_, (Except.error.inj h).symm⟩
    · cases h

end View

/-! ### One definition -/

section Building

variable {labels : Prefixes} {place : Place} {d : Definition} {ds : List Definition} {e : Entry}
  {p : Property} {v w : View} {error : ViewError}

theorem makeProperty_eq_ok_iff {prop name : String} : makeProperty labels place prop name = .ok p ↔
    Naming.isShortName name = true ∧
      ∃ iri, labels.expandOrAbsolute? prop = some iri ∧ p = { name, iri } := by
  unfold makeProperty
  split
  · rename_i h
    simp [h]
  · rename_i iri h
    rw [Steps.mapError_eq_ok, Property.make]
    split
    · rename_i hlegal
      simp [h, hlegal, eq_comm]
    · rename_i hlegal
      simp [hlegal]

theorem settles_iff {s t : String} :
    labels.Settles s t ↔ t = (labels.expandOrAbsolute? s).getD s := by
  constructor
  · rintro (h | h) <;> rw [h] <;> rfl
  · rintro rfl
    cases h : labels.expandOrAbsolute? s with
    | none => exact .verbatim h
    | some iri => exact .expanded h

theorem rel_settles_iff {given settled : Option String} : Option.Rel labels.Settles given settled ↔
    settled = given.map fun s => (labels.expandOrAbsolute? s).getD s := by
  constructor
  · intro h
    cases h with
    | none => rfl
    | some h => exact congrArg some (settles_iff.1 h)
  · rintro rfl
    cases given with
    | none => exact .none
    | some s => exact .some (settles_iff.2 rfl)

theorem property_eq_ok_iff : d.spec.property labels place = .ok p ↔
    Naming.isShortName d.shortName = true ∧ HasSettings labels d p := by
  rw [EntrySpec.property, Steps.bind_eq_ok]
  constructor
  · rintro ⟨q, hq, hp⟩
    obtain ⟨hlegal, iri, hiri, rfl⟩ := makeProperty_eq_ok_iff.1 hq
    cases hp
    exact ⟨hlegal, hiri, rfl, rfl, rfl, rfl, rfl, rfl, rfl, rel_settles_iff.2 rfl,
      rel_settles_iff.2 rfl⟩
  · rintro ⟨hlegal, h⟩
    refine ⟨{ name := d.shortName, iri := p.iri }, makeProperty_eq_ok_iff.2
      ⟨hlegal, p.iri, h.iri, rfl⟩, congrArg Except.ok ?_⟩
    obtain ⟨name, iri, optional, multi, filterable, hidden, range, comment, valueBase, suppressId⟩ := p
    obtain ⟨-, rfl, rfl, rfl, rfl, rfl, rfl, rfl, hrange, hbase⟩ := h
    obtain rfl := rel_settles_iff.1 hrange
    obtain rfl := rel_settles_iff.1 hbase
    rfl

theorem exists_hasSettings {iri : String} (h : labels.expandOrAbsolute? d.spec.prop = some iri) :
    ∃ p, HasSettings labels d p :=
  ⟨{ d.spec with
      name := d.shortName
      iri
      range := d.spec.range.map fun s => (labels.expandOrAbsolute? s).getD s
      valueBase := d.spec.valueBase.map fun s => (labels.expandOrAbsolute? s).getD s },
    h, rfl, rfl, rfl, rfl, rfl, rfl, rfl, rel_settles_iff.2 rfl, rel_settles_iff.2 rfl⟩

theorem entry_eq (labels : Prefixes) (place : Place) (d : Definition) :
    d.entry labels place = do
      let p ← d.spec.property labels place
      return ⟨p, ← d.nested.view labels place p.name⟩ := by
  cases d with
  | full spec nested => rw [Definition.entry]; rfl
  | short prop =>
    rw [Definition.entry, Definition.spec, EntrySpec.property, Option.getD_none]
    cases h : makeProperty labels place prop (localName prop) with
    | error e => rfl
    | ok p =>
      obtain ⟨-, iri, -, rfl⟩ := makeProperty_eq_ok_iff.1 h
      rw [Definition.nested]
      simp only [bind, Except.bind, pure, Except.pure, Nested.view, Option.map_none]

/-- **When the entry of a definition is built.** -/
theorem entry_eq_ok_iff {sub : Option View} : d.entry labels place = .ok ⟨p, sub⟩ ↔
    Naming.isShortName d.shortName = true ∧ HasSettings labels d p ∧
      d.nested.view labels place d.shortName = .ok sub := by
  rw [entry_eq, Steps.bind_eq_ok]
  constructor
  · rintro ⟨q, hq, hrest⟩
    obtain ⟨sub', hsub, hentry⟩ := Steps.bind_eq_ok.1 hrest
    cases hentry
    obtain ⟨hlegal, hsettings⟩ := property_eq_ok_iff.1 hq
    exact ⟨hlegal, hsettings, hsettings.name ▸ hsub⟩
  · rintro ⟨hlegal, hsettings, hsub⟩
    refine ⟨p, property_eq_ok_iff.2 ⟨hlegal, hsettings⟩, ?_⟩
    rw [hsettings.name, hsub]
    rfl

/-- **When what is nested in an entry is built.** -/
theorem view_eq_ok_iff {nested : Nested} {name : String} {sub : Option View} :
    nested.view labels place name = .ok sub ↔ nested = .absent ∧ sub = none ∨
      ∃ raw below v, nested = .children raw below ∧ sub = some v ∧
        buildView labels (.nestedIn place name) below = .ok v := by
  cases nested with
  | absent => simp [Nested.view, eq_comm]
  | notList raw => simp [Nested.view]
  | badChild raw position cause => simp [Nested.view]
  | children raw below =>
    rw [Nested.view, ← buildView, Steps.map_eq_ok]
    simp [and_comm, eq_comm]

theorem name_of_entry (h : d.entry labels place = .ok e) : e.name = d.shortName :=
  (entry_eq_ok_iff.1 h).2.1.name

/-! ### A list of definitions -/

theorem buildFrom_cons_eq_ok {position : ℕ} :
    buildFrom labels place position v (d :: ds) = .ok w ↔
      ∃ e, d.entry labels (.entry place position) = .ok e ∧ Naming.isShortName e.name = true ∧
        e.name ∉ v.names ∧ buildFrom labels place (position + 1) (v.concat e) ds = .ok w := by
  rw [buildFrom, Steps.bind_eq_ok]
  refine exists_congr fun e => and_congr_right fun _ => ?_
  rw [Steps.bind_eq_ok]
  constructor
  · rintro ⟨u, hu, hrest⟩
    obtain ⟨hlegal, hnew, rfl⟩ := View.push_eq_ok_iff.1 (Steps.mapError_eq_ok.1 hu)
    exact ⟨hlegal, hnew, hrest⟩
  · rintro ⟨hlegal, hnew, hrest⟩
    exact ⟨_, Steps.mapError_eq_ok.2 (View.push_eq_ok_iff.2 ⟨hlegal, hnew, rfl⟩), hrest⟩

theorem entries_of_buildFrom : ∀ {ds : List Definition} {position : ℕ} {v : View},
    buildFrom labels place position v ds = .ok w → v.names.Nodup →
    ∃ es, w.entries = v.entries ++ es ∧ (v.names ++ ds.map Definition.shortName).Nodup ∧
      List.Forall₂ (fun d e => ∃ place, d.entry labels place = .ok e) ds es
  | [], _, v, h, hv => by
    rw [buildFrom] at h
    cases h
    exact ⟨[], by simp, by simpa using hv, .nil⟩
  | d :: ds, position, v, h, hv => by
    obtain ⟨e, he, -, hnew, hrest⟩ := buildFrom_cons_eq_ok.1 h
    have hconcat : (v.concat e).names = v.names ++ [d.shortName] := by
      rw [View.names_concat, name_of_entry he]
    have hnames : (v.concat e).names.Nodup := by
      rw [View.names_concat, ← List.concat_eq_append, List.nodup_concat]
      exact ⟨hnew, hv⟩
    obtain ⟨es, hes, hdistinct, hentries⟩ := entries_of_buildFrom hrest hnames
    refine ⟨e :: es, ?_, ?_, .cons ⟨_, he⟩ hentries⟩
    · rw [hes, View.entries_concat, List.append_assoc, List.singleton_append]
    · rwa [hconcat, List.append_assoc, List.singleton_append] at hdistinct

theorem exists_buildFrom : ∀ {ds : List Definition} (position : ℕ) {v : View},
    (∀ d ∈ ds, ∀ place, ∃ e, d.entry labels place = .ok e) →
    (∀ d ∈ ds, Naming.isShortName d.shortName = true) →
    (v.names ++ ds.map Definition.shortName).Nodup →
    ∃ w, buildFrom labels place position v ds = .ok w
  | [], _, v, _, _, _ => ⟨v, by rw [buildFrom]⟩
  | d :: ds, position, v, hentries, hlegal, hdistinct => by
    obtain ⟨e, he⟩ := hentries d List.mem_cons_self (.entry place position)
    have hname := name_of_entry he
    have hnew : e.name ∉ v.names := by
      rw [hname]
      intro hmem
      exact (List.nodup_append.1 hdistinct).2.2 _ hmem _ List.mem_cons_self rfl
    have hrest : ((v.concat e).names ++ ds.map Definition.shortName).Nodup := by
      rwa [View.names_concat, hname, List.append_assoc, List.singleton_append]
    obtain ⟨w, hw⟩ := exists_buildFrom (position + 1)
      (fun c hc => hentries c (List.mem_cons_of_mem _ hc))
      (fun c hc => hlegal c (List.mem_cons_of_mem _ hc)) hrest
    exact ⟨w, buildFrom_cons_eq_ok.2 ⟨e, he, hname ▸ hlegal d List.mem_cons_self, hnew, hw⟩⟩

/-! ### At every depth -/

theorem forall₂_of_buildView (h : buildView labels place ds = .ok v) :
    (ds.map Definition.shortName).Nodup ∧
      List.Forall₂ (fun d e => ∃ place, d.entry labels place = .ok e) ds v.entries := by
  obtain ⟨es, hes, hdistinct, hentries⟩ := entries_of_buildFrom h List.nodup_nil
  rw [hes]
  exact ⟨hdistinct, hentries⟩

theorem mirrors_of_buildView (hmirrors : ∀ d ∈ ds, ∀ place e, d.entry labels place = .ok e →
    Mirrors labels d e) (h : buildView labels place ds = .ok v) :
    List.Forall₂ (Mirrors labels) ds v.entries :=
  ((List.forall₂_and_left _ _).2 ⟨hmirrors, (forall₂_of_buildView h).2⟩).imp
    fun _ _ ⟨hd, place, he⟩ => hd place _ he

theorem mirrors_of_entry (d : Definition) : ∀ place e, d.entry labels place = .ok e →
    Mirrors labels d e := by
  induction d using Definition.induction with
  | step d ih =>
    rintro place ⟨p, sub⟩ h
    obtain ⟨-, hsettings, hsub⟩ := entry_eq_ok_iff.1 h
    obtain ⟨hnested, rfl⟩ | ⟨raw, below, v, hnested, rfl, hv⟩ := view_eq_ok_iff.1 hsub
    · exact .leaf hsettings hnested
    · exact .nested hsettings hnested (mirrors_of_buildView (ih raw below hnested) hv)

theorem isSound_of_buildView (hbelow : ∀ d ∈ ds, ∀ place e, d.entry labels place = .ok e →
    ∀ raw below, d.nested = .children raw below → ∀ level, Level below level → IsSound labels level)
    (h : buildView labels place ds = .ok v) {level : List Definition} (hlevel : Level ds level) :
    IsSound labels level := by
  obtain ⟨hdistinct, hentries⟩ := forall₂_of_buildView h
  have hbuilt : ∀ d ∈ ds, ∃ place p sub, d.entry labels place = .ok ⟨p, sub⟩ := by
    intro d hd
    obtain ⟨⟨p, sub⟩, place, he⟩ := exists_of_forall₂ hentries d hd
    exact ⟨place, p, sub, he⟩
  cases hlevel with
  | top =>
    refine ⟨fun d hd => ?_, fun d hd => ?_, hdistinct, fun d hd => ?_⟩
    · obtain ⟨place, p, sub, he⟩ := hbuilt d hd
      exact ⟨p.iri, (entry_eq_ok_iff.1 he).2.1.iri⟩
    · obtain ⟨place, p, sub, he⟩ := hbuilt d hd
      exact (entry_eq_ok_iff.1 he).1
    · obtain ⟨place, p, sub, he⟩ := hbuilt d hd
      obtain ⟨hnested, -⟩ | ⟨raw, below, v, hnested, -⟩ :=
        view_eq_ok_iff.1 (entry_eq_ok_iff.1 he).2.2
      · exact .inl hnested
      · exact .inr ⟨raw, below, hnested⟩
  | inner hd hnested hlevel =>
    obtain ⟨place, p, sub, he⟩ := hbuilt _ hd
    exact hbelow _ hd place _ he _ _ hnested _ hlevel

theorem isSound_below_of_entry (d : Definition) : ∀ place e, d.entry labels place = .ok e →
    ∀ raw below, d.nested = .children raw below → ∀ level, Level below level →
      IsSound labels level := by
  induction d using Definition.induction with
  | step d ih =>
    rintro place ⟨p, sub⟩ h raw below hnested level hlevel
    obtain ⟨-, -, hsub⟩ := entry_eq_ok_iff.1 h
    rw [hnested] at hsub
    obtain ⟨hnone, -⟩ | ⟨_, _, v, hsome, -, hv⟩ := view_eq_ok_iff.1 hsub
    · cases hnone
    · cases hsome
      exact isSound_of_buildView (ih raw below hnested) hv hlevel

theorem exists_buildView (place : Place) (hsound : IsSound labels ds)
    (hentries : ∀ d ∈ ds, ∀ place, ∃ e, d.entry labels place = .ok e) :
    ∃ v, buildView labels place ds = .ok v :=
  exists_buildFrom 1 hentries hsound.legal hsound.distinct

theorem exists_entry (d : Definition) : ∀ ds, (∀ level, Level ds level → IsSound labels level) →
    d ∈ ds → ∀ place, ∃ e, d.entry labels place = .ok e := by
  induction d using Definition.induction with
  | step d ih =>
    intro ds hsound hd place
    have htop := hsound ds .top
    obtain ⟨iri, hiri⟩ := htop.iri d hd
    obtain ⟨p, hp⟩ := exists_hasSettings hiri
    suffices ∃ sub, d.nested.view labels place d.shortName = .ok sub by
      obtain ⟨sub, hsub⟩ := this
      exact ⟨⟨p, sub⟩, entry_eq_ok_iff.2 ⟨htop.legal d hd, hp, hsub⟩⟩
    obtain hnested | ⟨raw, below, hnested⟩ := htop.nested d hd
    · exact ⟨none, view_eq_ok_iff.2 (.inl ⟨hnested, rfl⟩)⟩
    · have hbelow : ∀ level, Level below level → IsSound labels level :=
        fun level hlevel => hsound level (.inner hd hnested hlevel)
      obtain ⟨v, hv⟩ := exists_buildView (.nestedIn place d.shortName)
        (hbelow below .top) fun c hc => ih raw below hnested c hc below hbelow hc
      exact ⟨some v, view_eq_ok_iff.2 (.inr ⟨raw, below, v, hnested, rfl, hv⟩)⟩

end Building

/-! ### Errors -/

/-- **A view is malformed**, at a place of its document. -/
inductive ViewError.IsMalformedAt : ViewError → Prop
  | intro (fault : Fault) (place : Place) : IsMalformedAt (.malformed fault (some place))

section Errors

variable {labels : Prefixes} {ds : List Definition} {error : ViewError}

theorem isMalformedAt_inEntry (place : Place) (fault : Fault) :
    ((ViewError.malformed fault).inEntry place).IsMalformedAt :=
  .intro (.ofEntry fault) place

theorem isMalformedAt_of_makeProperty {place : Place} {prop name : String}
    (h : makeProperty labels place prop name = .error error) : error.IsMalformedAt := by
  unfold makeProperty at h
  split at h
  · cases h
    exact .intro _ _
  · obtain ⟨_, he, rfl⟩ := Steps.mapError_eq_error.1 h
    unfold Property.make at he
    split at he
    · cases he
    · cases he
      exact isMalformedAt_inEntry place _

theorem isMalformedAt_of_property {place : Place} {spec : EntrySpec}
    (h : spec.property labels place = .error error) : error.IsMalformedAt := by
  obtain h | ⟨_, -, h⟩ := Steps.bind_eq_error.1 h
  · exact isMalformedAt_of_makeProperty h
  · cases h

theorem isMalformedAt_of_buildFrom {place : Place} : ∀ {ds : List Definition} {position : ℕ} {v : View},
    (∀ d ∈ ds, ∀ place error, d.entry labels place = .error error → error.IsMalformedAt) →
    buildFrom labels place position v ds = .error error → error.IsMalformedAt
  | [], _, _, _, h => by
    rw [buildFrom] at h
    cases h
  | d :: ds, position, v, hentries, h => by
    rw [buildFrom] at h
    obtain h | ⟨e, -, h⟩ := Steps.bind_eq_error.1 h
    · exact hentries d List.mem_cons_self _ _ h
    obtain h | ⟨w, -, h⟩ := Steps.bind_eq_error.1 h
    · obtain ⟨_, hpush, rfl⟩ := Steps.mapError_eq_error.1 h
      obtain ⟨fault, rfl⟩ := View.exists_fault_of_push hpush
      exact isMalformedAt_inEntry _ _
    · exact isMalformedAt_of_buildFrom (fun c hc => hentries c (List.mem_cons_of_mem _ hc)) h

theorem isMalformedAt_of_view {place : Place} {name : String} {nested : Nested}
    (hbelow : ∀ raw below, nested = .children raw below → ∀ d ∈ below, ∀ place error,
      d.entry labels place = .error error → error.IsMalformedAt)
    (h : nested.view labels place name = .error error) : error.IsMalformedAt := by
  cases nested with
  | absent =>
    rw [Nested.view] at h
    cases h
  | notList raw =>
    rw [Nested.view] at h
    cases h
    exact .intro _ _
  | badChild raw position cause =>
    rw [Nested.view] at h
    cases h
    exact .intro _ _
  | children raw below =>
    rw [Nested.view, Steps.map_eq_error] at h
    exact isMalformedAt_of_buildFrom (hbelow raw below rfl) h

theorem isMalformedAt_of_entry (d : Definition) : ∀ place error,
    d.entry labels place = .error error → error.IsMalformedAt := by
  induction d using Definition.induction with
  | step d ih =>
    intro place error h
    rw [entry_eq] at h
    obtain h | ⟨p, -, h⟩ := Steps.bind_eq_error.1 h
    · exact isMalformedAt_of_property h
    obtain h | ⟨_, -, h⟩ := Steps.bind_eq_error.1 h
    · exact isMalformedAt_of_view ih h
    · cases h

end Errors

/-! ### The whole list -/

/-- **Lists of definitions become views as a whole or not at all.** A view is built exactly if every
level of the list is sound. It mirrors the list; otherwise the error is that of a malformed view. A
definition without a name has the end of its property for one. -/
theorem definitions_build_all_or_nothing (labels : Prefixes) (place : Place) (ds : List Definition) :
    ((∃ v, buildView labels place ds = .ok v) ↔ ∀ level, Level ds level → IsSound labels level) ∧
    (∀ v, buildView labels place ds = .ok v → List.Forall₂ (Mirrors labels) ds v.entries) ∧
    (∀ error, buildView labels place ds = .error error → error.IsMalformedAt) ∧
    ∀ prop name, localName prop = name ↔ IsLocalName prop name := by
  refine ⟨⟨?_, fun hsound => ?_⟩, fun v hv => ?_, fun error h => ?_, fun _ _ => localName_eq_iff⟩
  · rintro ⟨v, hv⟩ level hlevel
    exact isSound_of_buildView (fun d _ => isSound_below_of_entry d) hv hlevel
  · exact exists_buildView place (hsound ds .top) fun d hd => exists_entry d ds hsound hd
  · exact mirrors_of_buildView (fun d _ => mirrors_of_entry d) hv
  · exact isMalformedAt_of_buildFrom (fun d _ => isMalformedAt_of_entry d) h

/-- A definition with one nested in it, which has no name of its own. -/
theorem definitions_build_all_or_nothing_of_area :
    let labels : Prefixes := Table.ofList [("rt", "http://ex.org/")]
    let county : Definition := .short "<http://ex.org/def#county>"
    let area : EntrySpec := { prop := "rt:floodArea", optional := true, range := some "rt:Area" }
    let ds : List Definition := [.short "rt:message", .full area (.children [] [county])]
    let floodArea : Property :=
      { name := "floodArea"
        iri := "http://ex.org/floodArea"
        optional := true
        range := some "http://ex.org/Area" }
    let v : View := .leaf { name := "message", iri := "http://ex.org/message" }
      (.nested floodArea (.leaf { name := "county", iri := "http://ex.org/def#county" } .empty) .empty)
    buildView labels (.view "warning") ds = .ok v ∧
    (∀ level, Level ds level → IsSound labels level) ∧ List.Forall₂ (Mirrors labels) ds v.entries := by
  intro labels county area ds floodArea v
  obtain ⟨hbuilds, hmirrors, -, -⟩ := definitions_build_all_or_nothing labels (.view "warning") ds
  have hv : buildView labels (.view "warning") ds = .ok v :=
    Steps.toOption_eq_some.1 (by decide +kernel)
  exact ⟨hv, hbuilds.1 ⟨v, hv⟩, hmirrors v hv⟩

end SparqlViews
