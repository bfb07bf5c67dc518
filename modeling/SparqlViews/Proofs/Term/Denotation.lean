import SparqlViews.Proofs.Term.Parsing

/-! # What a reading gives

A reading stands for a term by the labels that are declared (`Reading.Denotes`). It gives that term, or
the error that a label is not declared or that an IRI cannot be written, and nothing else
(`Reading.resolve_eq_iff`). With the grammar this says what the term of a text is, for every text
(`compact_texts_follow_grammar`).
-/

namespace SparqlViews

namespace Compact

/-! ### Names and terms -/

variable {n : Name} {reading : Reading}

/-- The IRI that a name stands for. -/
inductive Name.Denotes (labels : Prefixes) : Name → String → Prop
  | full (iri : String) : Denotes labels (.full iri) iri
  | labelled {label namespaceIri : String} (more : String)
      (h : labels.get? label = some namespaceIri) :
      Denotes labels (.labelled label more) (namespaceIri ++ more)

/-- The name in a reading: the term itself, or the datatype of a literal. -/
def Reading.name? : Reading → Option Name
  | .name n => some n
  | .literal _ (.datatype n) => some n
  | _ => none

/-- **The term that a reading stands for.** -/
inductive Reading.Denotes (labels : Prefixes) : Reading → Term → Prop
  | iri {n : Name} {iri : String} (h : n.Denotes labels iri) : Denotes labels (.name n) (.iri iri)
  | blank (label : String) : Denotes labels (.blank label) (.blank label)
  | plain (lexical : String) :
      Denotes labels (.literal lexical .none) (.literal lexical .plain)
  | language (lexical tag : String) : Denotes labels (.literal lexical (.language tag))
      (.literal lexical (.language (Text.lower tag)))
  | string {n : Name} (lexical : String) (h : n.Denotes labels xsdString) :
      Denotes labels (.literal lexical (.datatype n)) (.literal lexical .plain)
  | datatype {n : Name} {iri : String} (lexical : String) (h : n.Denotes labels iri)
      (hne : iri ≠ xsdString) :
      Denotes labels (.literal lexical (.datatype n)) (.literal lexical (.datatype iri))

/-- **The answer for a reading**: the label of its name is not declared, or its IRI has a character
that cannot be written, or else there is the term that it stands for. -/
inductive Reading.Gives (labels : Prefixes) (input : String) (reading : Reading) :
    Except TermError Term → Prop
  | unknown {label more : String} (hname : reading.name? = some (.labelled label more))
      (h : labels.get? label = none) : Gives labels input reading (.error (.unknownLabel label input))
  | invalid {n : Name} {iri : String} (hname : reading.name? = some n) (hiri : n.Denotes labels iri)
      (h : ∃ c ∈ iri.toList, isIriChar c = false) :
      Gives labels input reading (.error (.invalidIri iri))
  | term {t : Term} (h : reading.Denotes labels t)
      (hiri : ∀ n iri, reading.name? = some n → n.Denotes labels iri →
        ∀ c ∈ iri.toList, isIriChar c = true) : Gives labels input reading (.ok t)

variable {labels : Prefixes} {input : String} {answer : Except TermError Term}

theorem Name.resolve_eq_ok_iff (input : String) {iri : String} :
    n.resolve labels input = .ok iri ↔ n.Denotes labels iri := by
  cases n with
  | full written =>
    constructor
    · intro h
      cases h
      exact .full _
    · rintro ⟨⟩
      rfl
  | labelled label more =>
    rw [Name.resolve]
    constructor
    · intro h
      split at h
      · rename_i namespaceIri hlabel
        cases h
        exact .labelled more hlabel
      · cases h
    · rintro ⟨⟩
      rename_i namespaceIri hlabel
      rw [hlabel]

theorem Name.resolve_eq_error_iff {e : TermError} : n.resolve labels input = .error e ↔
    ∃ label more, n = .labelled label more ∧ labels.get? label = none ∧
      e = .unknownLabel label input := by
  cases n with
  | full written => exact iff_of_false (fun h => nomatch h) (by simp)
  | labelled label more =>
    rw [Name.resolve]
    constructor
    · intro h
      split at h
      · cases h
      · rename_i hlabel
        cases h
        exact ⟨label, more, rfl, hlabel, rfl⟩
    · rintro ⟨_, _, heq, hlabel, rfl⟩
      cases heq
      rw [hlabel]

theorem isIri_eq_false_iff {s : String} :
    isIri s = false ↔ ∃ c ∈ s.toList, isIriChar c = false := by
  simp [isIri]

theorem Name.Denotes.unique {iri iri' : String} (h : n.Denotes labels iri)
    (h' : n.Denotes labels iri') : iri = iri' := by
  have hresolve := (Name.resolve_eq_ok_iff "").2 h
  rw [(Name.resolve_eq_ok_iff "").2 h'] at hresolve
  exact (Except.ok.inj hresolve).symm

namespace Reading

theorem Denotes.unique {t t' : Term} (h : reading.Denotes labels t)
    (h' : reading.Denotes labels t') : t = t' := by
  cases h with
  | iri hn =>
    cases h' with
    | iri hn' => rw [hn.unique hn']
  | blank => cases h' with | blank => rfl
  | plain => cases h' with | plain => rfl
  | language => cases h' with | language => rfl
  | string _ hn =>
    cases h' with
    | string => rfl
    | datatype _ hn' hne => exact absurd (hn'.unique hn) hne
  | datatype _ hn hne =>
    cases h' with
    | string _ hn' => exact absurd (hn.unique hn') hne
    | datatype _ hn' => rw [hn.unique hn']

theorem Denotes.exists_name {t : Term} (h : reading.Denotes labels t)
    (hname : reading.name? = some n) : ∃ iri, n.Denotes labels iri := by
  cases h with
  | iri hn =>
    cases hname
    exact ⟨_, hn⟩
  | blank => cases hname
  | plain => cases hname
  | language => cases hname
  | string _ hn =>
    cases hname
    exact ⟨_, hn⟩
  | datatype _ hn =>
    cases hname
    exact ⟨_, hn⟩

theorem exists_of_name?_eq_none (input : String) (hname : reading.name? = none) :
    ∃ t, reading.Denotes labels t ∧ reading.resolve labels input = .ok t := by
  cases reading with
  | name n => cases hname
  | blank label => exact ⟨_, .blank label, rfl⟩
  | literal lexical suffix =>
    cases suffix with
    | none => exact ⟨_, .plain lexical, rfl⟩
    | language tag => exact ⟨_, .language lexical tag, rfl⟩
    | datatype n => cases hname

theorem resolve_of_error {e : TermError} (hname : reading.name? = some n)
    (h : n.resolve labels input = .error e) : reading.resolve labels input = .error e := by
  cases reading with
  | name m =>
    cases hname
    rw [resolve, h]
    rfl
  | blank label => cases hname
  | literal lexical suffix =>
    cases suffix with
    | none => cases hname
    | language tag => cases hname
    | datatype m =>
      cases hname
      rw [resolve, h]
      rfl

theorem exists_of_denotes (input : String) {iri : String} (hname : reading.name? = some n)
    (hn : n.Denotes labels iri) : ∃ t, reading.Denotes labels t ∧
      reading.resolve labels input = if isIri iri then .ok t else .error (.invalidIri iri) := by
  have hresolve : n.resolve labels input = .ok iri := (Name.resolve_eq_ok_iff input).2 hn
  cases reading with
  | name m =>
    cases hname
    refine ⟨.iri iri, .iri hn, ?_⟩
    rw [resolve, hresolve]
    rfl
  | blank label => cases hname
  | literal lexical suffix =>
    cases suffix with
    | none => cases hname
    | language tag => cases hname
    | datatype m =>
      cases hname
      refine ⟨.ofDatatype lexical iri, ?_, ?_⟩
      · unfold Term.ofDatatype
        split
        · rename_i hstring
          exact .string lexical (hstring ▸ hn)
        · rename_i hne
          exact .datatype lexical hn hne
      · rw [resolve, hresolve]
        rfl

theorem gives_resolve (labels : Prefixes) (input : String) (reading : Reading) :
    reading.Gives labels input (reading.resolve labels input) := by
  cases hname : reading.name? with
  | none =>
    obtain ⟨t, ht, hresolve⟩ := exists_of_name?_eq_none input hname
    rw [hresolve]
    exact .term ht fun n iri hn => by cases hname.symm.trans hn
  | some n =>
    cases hn : n.resolve labels input with
    | error e =>
      obtain ⟨label, more, rfl, hlabel, rfl⟩ := Name.resolve_eq_error_iff.1 hn
      rw [resolve_of_error hname hn]
      exact .unknown hname hlabel
    | ok iri =>
      have hdenotes := (Name.resolve_eq_ok_iff input).1 hn
      obtain ⟨t, ht, hresolve⟩ := exists_of_denotes input hname hdenotes
      rw [hresolve]
      split
      · rename_i hiri
        refine .term ht fun m other hm hother => ?_
        cases hname.symm.trans hm
        rw [hother.unique hdenotes]
        exact List.all_eq_true.1 hiri
      · rename_i hiri
        exact .invalid hname hdenotes (isIri_eq_false_iff.1 (Bool.eq_false_iff.2 hiri))

/-- **A reading gives one answer**, which is told by the labels that are declared. -/
theorem resolve_eq_iff :
    reading.resolve labels input = answer ↔ reading.Gives labels input answer := by
  refine ⟨fun h => h ▸ gives_resolve labels input reading, fun h => ?_⟩
  cases h with
  | unknown hname h =>
    exact resolve_of_error hname (Name.resolve_eq_error_iff.2 ⟨_, _, rfl, h, rfl⟩)
  | invalid hname hiri h =>
    obtain ⟨t, -, hresolve⟩ := exists_of_denotes input hname hiri
    rw [hresolve, if_neg (Bool.eq_false_iff.1 (isIri_eq_false_iff.2 h))]
  | @term t h hiri =>
    cases hname : reading.name? with
    | none =>
      obtain ⟨t', ht', hresolve⟩ := exists_of_name?_eq_none input hname
      rw [hresolve, h.unique ht']
    | some n =>
      obtain ⟨iri, hn⟩ := h.exists_name hname
      obtain ⟨t', ht', hresolve⟩ := exists_of_denotes input hname hn
      have hvalid : isIri iri = true := List.all_eq_true.2 (hiri n iri hname hn)
      rw [hresolve, if_pos hvalid, h.unique ht']

theorem resolve_ne_malformed (s : String) :
    reading.resolve labels input ≠ .error (.malformed s) := by
  intro h
  cases resolve_eq_iff.1 h

end Reading

end Compact

open Compact

/-- **Compact texts are those of the grammar.** A text is refused as malformed exactly if it is no form
of a term with white space around it. The form, its place and its reading are determined by the
text, in whatever order the forms are tried. The reading then gives the answer: it fails exactly
if its label is not declared, or else if its IRI has a character that cannot be written. -/
theorem compact_texts_follow_grammar (labels : Prefixes) (input : String) :
    ((∀ s, parseTerm labels input ≠ .error (.malformed s)) ↔
      ∃ before text behind reading, Layout input.toList before text behind reading) ∧
    (∀ before text behind reading before' text' behind' reading',
      Layout input.toList before text behind reading →
      Layout input.toList before' text' behind' reading' →
        before = before' ∧ text = text' ∧ behind = behind' ∧ reading = reading') ∧
    (∀ reading, (∃ before text behind, Layout input.toList before text behind reading) ↔
      ∃ read ∈ forms, ∃ behind,
        read (input.toList.dropWhile isSpace) = some (reading, behind) ∧ IsSpaces behind) ∧
    ∀ before text behind reading, Layout input.toList before text behind reading →
      ∀ answer, parseTerm labels input = answer ↔ reading.Gives labels input answer := by
  have hanswer : ∀ before text behind reading, Layout input.toList before text behind reading →
      parseTerm labels input = reading.resolve labels input := by
    intro before text behind reading h
    rw [parseTerm, h.read?_eq]
  refine ⟨⟨fun h => ?_, ?_⟩, fun _ _ _ _ _ _ _ _ => Layout.unique, fun reading => ?_, ?_⟩
  · -- a text without a reading is refused
    cases hread : read? input.toList with
    | none =>
      refine absurd ?_ (h input)
      rw [parseTerm, hread]
    | some reading =>
      obtain ⟨before, text, behind, hlayout⟩ := read?_eq_some_iff.1 hread
      exact ⟨before, text, behind, reading, hlayout⟩
  · rintro ⟨before, text, behind, reading, h⟩ s
    rw [hanswer before text behind reading h]
    exact Reading.resolve_ne_malformed s
  · rw [← read?_eq_some_iff, read?_eq_some_iff_exists_form]
  · intro before text behind reading h answer
    rw [hanswer before text behind reading h]
    exact Reading.resolve_eq_iff

/-- The label of the document at hand. -/
def countLabels : Prefixes := Table.ofList [("rt", "http://ex.org/rt/")]

/-- A quoted text with an escape and a datatype, between white space. -/
theorem compact_texts_follow_grammar_of_count :
    let input := " \"3\\n\"^^rt:count\n"
    Layout input.toList [' '] "\"3\\n\"^^rt:count".toList ['\n']
      (.literal "3\n" (.datatype (.labelled "rt" "count"))) ∧
    parseTerm countLabels input = .ok (.literal "3\n" (.datatype "http://ex.org/rt/count")) := by
  intro input
  have hname : NameText "rt:count".toList (.labelled "rt" "count") :=
    @NameText.labelled "rt".toList "count".toList ⟨by decide, by decide⟩ (by decide)
  have hbody : QuotedText '"' "3\\n".toList "3\n".toList :=
    .plain (by decide) (by decide) (.escaped 'n' .nil)
  have hform : Form "\"3\\n\"^^rt:count".toList
      (.literal "3\n" (.datatype (.labelled "rt" "count"))) :=
    @Form.quoted '"' _ _ _ _ (.inl rfl) hbody (.datatype hname)
  have hlayout : Layout input.toList [' '] "\"3\\n\"^^rt:count".toList ['\n']
      (.literal "3\n" (.datatype (.labelled "rt" "count"))) :=
    ⟨by decide, by simp [IsSpaces, spaces], hform, by simp [IsSpaces, spaces]⟩
  have hdenotes : (Name.labelled "rt" "count").Denotes countLabels "http://ex.org/rt/count" :=
    @Name.Denotes.labelled countLabels "rt" "http://ex.org/rt/" "count" (by decide)
  refine ⟨hlayout, ((compact_texts_follow_grammar countLabels input).2.2.2 _ _ _ _ hlayout _).2 ?_⟩
  refine .term (.datatype _ hdenotes (by decide)) fun n iri hn hiri => ?_
  cases hn
  rw [hiri.unique hdenotes]
  decide

end SparqlViews
