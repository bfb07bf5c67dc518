import Mathlib.Data.List.TakeWhile
import SparqlViews.Proofs.Steps
import SparqlViews.Proofs.Text.Occurrence
import SparqlViews.Term.Reader
import SparqlViews.View.Value

/-! # Terms read from outside text are well-formed

What a text says is proper before any label is looked up: a blank node has a label, and a language is
a proper tag once it is in lower case (`proper_of_form?`). Looking up labels checks every IRI again,
whatever the namespaces are, so that the term of a compact text is well-formed
(`wellFormed_of_parseTerm`), and so is that of a request value (`Property.wellFormed_of_value`).

* `tagParts_eq`: the parts of a language tag after the first, each behind a hyphen.
* `isLanguageTag_lower`: a tag in lower case.
-/

namespace SparqlViews

/-! ### Lower case of Latin text -/

namespace Text

theorem forall_ascii {p : Char → Bool} (h : ∀ n : Fin 128, p (Char.ofNat n) = true) {c : Char}
    (hc : c.toNat < 128) : p c = true := by
  have := h ⟨c.toNat, hc⟩
  rwa [Char.ofNat_toNat] at this

theorem lt_of_isAlphanum {c : Char} (h : c.isAlphanum = true) : c.toNat < 128 := by
  have hlast : c.val ≤ 'Z'.val ∨ c.val ≤ 'z'.val ∨ c.val ≤ '9'.val := by
    rcases Bool.or_eq_true_iff.1 h with hletter | hdigit
    · rcases Bool.or_eq_true_iff.1 hletter with hupper | hlower
      · exact .inl (of_decide_eq_true hupper).2
      · exact .inr (.inl (of_decide_eq_true ((Bool.and_eq_true_iff.1 hlower).2)))
    · exact .inr (.inr (of_decide_eq_true ((Bool.and_eq_true_iff.1 hdigit).2)))
  simp only [UInt32.le_iff_toNat_le] at hlast
  have : c.toNat = c.val.toNat := rfl
  have : 'Z'.val.toNat = 90 := rfl
  have : 'z'.val.toNat = 122 := rfl
  have : '9'.val.toNat = 57 := rfl
  omega

theorem isAlpha_of_isLower {c : Char} (h : c.isLower = true) : c.isAlpha = true :=
  Bool.or_eq_true_iff.2 (.inr h)

theorem isAlphanum_of_isAlpha {c : Char} (h : c.isAlpha = true) : c.isAlphanum = true :=
  Bool.or_eq_true_iff.2 (.inl h)

theorem isAlphanum_of_isDigit {c : Char} (h : c.isDigit = true) : c.isAlphanum = true :=
  Bool.or_eq_true_iff.2 (.inr h)

theorem isLower_toLower {c : Char} (h : c.isAlpha = true) : c.toLower.isLower = true := by
  have hall := forall_ascii (p := fun c => !c.isAlpha || c.toLower.isLower) (by decide)
    (lt_of_isAlphanum (isAlphanum_of_isAlpha h))
  simp only [h, Bool.not_true, Bool.false_or] at hall
  exact hall

/-- A small letter or a digit. -/
def isSmall (c : Char) : Bool := c.isLower || c.isDigit

theorem isSmall_toLower {c : Char} (h : c.isAlphanum = true) : isSmall c.toLower = true := by
  have hall := forall_ascii (p := fun c => !c.isAlphanum || isSmall c.toLower) (by decide)
    (lt_of_isAlphanum h)
  simp only [h, Bool.not_true, Bool.false_or] at hall
  exact hall

theorem lowerFrom_of_ascii {cs : List Char} (h : ∀ c ∈ cs, c.toNat < 128) (before : List Char) :
    lowerFrom before cs = cs.map Char.toLower := by
  induction cs generalizing before with
  | nil => rfl
  | cons c cs ih =>
    have hc := h c List.mem_cons_self
    have hsigma : c ≠ 'Σ' := by
      rintro rfl
      exact absurd hc (by decide)
    rw [lowerFrom, if_neg hsigma, lowerChar, if_pos hc,
      ih (fun d hd => h d (List.mem_cons_of_mem _ hd))]
    rfl

end Text

/-! ### Language tags -/

namespace Compact

/-- A part of a language tag: letters and digits. -/
def IsPart (part : List Char) : Prop := part ≠ [] ∧ ∀ c ∈ part, c.isAlphanum = true

/-- **The parts of a tag after the first**, each behind a hyphen. Inside a part, the rest of that part
comes before them. -/
theorem tagParts_eq (inside : Bool) (cs : List Char) : ∃ (here : List Char) (parts : List (List Char)),
    (tagParts inside cs).1 = here ++ parts.flatMap ('-' :: ·) ∧
      (∀ c ∈ here, c.isAlphanum = true) ∧ (inside = false → here = []) ∧
      (inside = true → cs.head?.any Char.isAlphanum = true → here ≠ []) ∧ ∀ p ∈ parts, IsPart p := by
  induction cs generalizing inside with
  | nil => exact ⟨[], [], rfl, by simp, fun _ => rfl, by simp, by simp⟩
  | cons c rest ih =>
    rw [tagParts]
    split
    · rename_i hc
      obtain ⟨here, parts, heq, hhere, -, hne, hparts⟩ := ih true
      dsimp only
      rw [heq]
      by_cases hin : (inside && c.isAlphanum) = true
      · -- the part goes on
        rw [Bool.and_eq_true] at hin
        refine ⟨c :: here, parts, rfl, ?_, fun hout => ?_, fun _ _ => List.cons_ne_nil _ _, hparts⟩
        · rintro d hd
          rcases List.mem_cons.1 hd with rfl | hd
          · exact hin.2
          · exact hhere d hd
        · rw [hin.1] at hout
          cases hout
      · -- a further part begins
        simp only [hin, Bool.false_or, Bool.and_eq_true, decide_eq_true_eq] at hc
        obtain ⟨rfl, hnext⟩ := hc
        refine ⟨[], here :: parts, rfl, by simp, fun _ => rfl, fun hin' hhead => ?_, ?_⟩
        · rw [List.head?_cons, Option.any_some] at hhead
          exact absurd hhead (by decide)
        · rintro p hp
          rcases List.mem_cons.1 hp with rfl | hp
          · exact ⟨hne rfl hnext, hhere⟩
          · exact hparts p hp
    · rename_i hc
      refine ⟨[], [], rfl, by simp, fun _ => rfl, fun hin hhead => ?_, by simp⟩
      simp only [List.head?_cons, Option.any_some] at hhead
      simp [hin, hhead] at hc

/-- **A language tag in lower case is a proper one.** -/
theorem isLanguageTag_lower {first : List Char} {parts : List (List Char)} (hne : first ≠ [])
    (hfirst : ∀ c ∈ first, c.isAlpha = true) (hparts : ∀ p ∈ parts, IsPart p) :
    isLanguageTag (Text.lower (String.ofList (first ++ parts.flatMap ('-' :: ·)))) = true := by
  have hascii : ∀ c ∈ first ++ parts.flatMap ('-' :: ·), c.toNat < 128 := by
    intro c hc
    rcases List.mem_append.1 hc with hc | hc
    · exact Text.lt_of_isAlphanum (Text.isAlphanum_of_isAlpha (hfirst c hc))
    · obtain ⟨p, hp, hc⟩ := List.mem_flatMap.1 hc
      rcases List.mem_cons.1 hc with rfl | hc
      · decide
      · exact Text.lt_of_isAlphanum ((hparts p hp).2 c hc)
  have hlower : (Text.lower (String.ofList (first ++ parts.flatMap ('-' :: ·)))).toList =
      first.map Char.toLower ++ (parts.map (List.map Char.toLower)).flatMap ('-' :: ·) := by
    rw [Text.lower, String.toList_ofList, String.toList_ofList, Text.lowerFrom_of_ascii hascii,
      List.map_append, List.map_flatMap, List.flatMap_map]
    rfl
  have hsmall : ∀ p ∈ parts, ∀ c ∈ p.map Char.toLower, Text.isSmall c = true := by
    intro p hp c hc
    obtain ⟨d, hd, rfl⟩ := List.mem_map.1 hc
    exact Text.isSmall_toLower ((hparts p hp).2 d hd)
  have hletters : ∀ c ∈ first.map Char.toLower, c.isLower = true := by
    intro c hc
    obtain ⟨d, hd, rfl⟩ := List.mem_map.1 hc
    exact Text.isLower_toLower (hfirst d hd)
  have hfields : Text.fields '-' (first.map Char.toLower ++
      (parts.map (List.map Char.toLower)).flatMap ('-' :: ·)) =
        first.map Char.toLower :: parts.map (List.map Char.toLower) := Text.fields_append_flatMap
    (fun hm => absurd (hletters '-' hm) (by decide))
    (by
      intro q hq hm
      obtain ⟨p, hp, rfl⟩ := List.mem_map.1 hq
      exact absurd (hsmall p hp '-' hm) (by decide))
  rw [isLanguageTag, hlower, hfields]
  simp only [Bool.and_eq_true, Bool.not_eq_true', List.all_eq_true, List.isEmpty_eq_false_iff]
  refine ⟨⟨by simpa using hne, hletters⟩, fun q hq => ?_⟩
  obtain ⟨p, hp, rfl⟩ := List.mem_map.1 hq
  exact ⟨by simpa using (hparts p hp).1, fun c hc => hsmall p hp c hc⟩

theorem isLanguageTag_of_language? {cs after : List Char} {tag : String}
    (h : language? cs = some (tag, after)) : isLanguageTag (Text.lower tag) = true := by
  unfold language? at h
  split at h
  · rename_i rest
    split at h
    · cases h
    · rename_i first hne
      cases h
      obtain ⟨here, parts, heq, -, hout, -, hparts⟩ := tagParts_eq false (rest.dropWhile isLetter)
      rw [heq, hout rfl, List.nil_append]
      refine isLanguageTag_lower hne (fun c hc => ?_) hparts
      exact List.mem_takeWhile_imp hc
  · cases h

/-! ### Readings -/

/-- **What a text says is proper**, as far as it needs no labels. -/
def Reading.Proper : Reading → Prop
  | .blank label => label.toList ≠ [] ∧ label.toList.all isLabelChar = true
  | .literal _ (.language tag) => isLanguageTag (Text.lower tag) = true
  | _ => True

variable {cs rest : List Char} {reading : Reading} {labels : Prefixes} {input : String}

theorem proper_of_quotedLiteral? (h : quotedLiteral? cs = some (reading, rest)) :
    reading.Proper := by
  unfold quotedLiteral? at h
  split at h
  · cases h
  · dsimp only at h
    split at h
    · rename_i tag after htag
      cases h
      exact isLanguageTag_of_language? htag
    · split at h <;> cases h <;> trivial

theorem proper_of_blank? {label : String} (h : blank? cs = some (label, rest)) :
    (Reading.blank label).Proper := by
  unfold blank? at h
  split at h
  · rename_i text
    split at h
    · cases h
    · rename_i chars hne
      cases h
      rw [Reading.Proper, String.toList_ofList, List.all_eq_true]
      exact ⟨hne, fun c hc => List.mem_takeWhile_imp hc⟩
  · cases h

theorem proper_of_number? (h : number? cs = some (reading, rest)) : reading.Proper := by
  obtain ⟨⟨mantissa, afterMantissa⟩, -, h⟩ := Option.bind_eq_some_iff.1 h
  obtain ⟨⟨exponent, afterExponent⟩, -, h⟩ := Option.bind_eq_some_iff.1 h
  cases h
  trivial

theorem proper_of_boolean? (h : boolean? cs = some (reading, rest)) : reading.Proper := by
  unfold boolean? at h
  split at h <;> cases h <;> trivial

/-- **Every form says something proper.** -/
theorem proper_of_form? (h : form? cs = some (reading, rest)) : reading.Proper := by
  rw [form?, Option.or_eq_some_iff, Option.or_eq_some_iff, Option.or_eq_some_iff,
    Option.or_eq_some_iff] at h
  rcases h with (((h | ⟨-, h⟩) | ⟨-, h⟩) | ⟨-, h⟩) | ⟨-, h⟩
  · exact proper_of_quotedLiteral? h
  · obtain ⟨⟨name, after⟩, -, heq⟩ := Option.map_eq_some_iff.1 h
    cases heq
    trivial
  · obtain ⟨⟨label, after⟩, hblank, heq⟩ := Option.map_eq_some_iff.1 h
    cases heq
    exact proper_of_blank? hblank
  · exact proper_of_number? h
  · exact proper_of_boolean? h

theorem proper_of_read? (h : read? cs = some reading) : reading.Proper := by
  unfold read? at h
  split at h
  · rename_i found after hform
    split at h
    · cases h
      exact proper_of_form? hform
    · cases h
  · cases h

end Compact

/-! ### Terms -/

namespace Term

theorem wellFormed_of_iri? {s : String} {t : Term} (h : iri? s = .ok t) : t.WellFormed := by
  unfold iri? at h
  split at h
  · rename_i hs
    cases h
    exact hs
  · cases h

theorem wellFormed_ofDatatype {datatype : String} (h : isIri datatype = true) (lexical : String) :
    (ofDatatype lexical datatype).WellFormed := by
  unfold ofDatatype
  split
  · trivial
  · rename_i hne
    exact ⟨h, hne⟩

end Term

variable {labels : Prefixes} {input : String} {t : Term}

/-- **Looking up the labels of something proper gives a well-formed term**, whatever they stand
for. -/
theorem Compact.Reading.wellFormed_of_resolve {reading : Reading} (hproper : reading.Proper)
    (h : reading.resolve labels input = .ok t) : t.WellFormed := by
  cases reading with
  | name n =>
    obtain ⟨iri, -, h⟩ := Steps.bind_eq_ok.1 h
    exact Term.wellFormed_of_iri? h
  | blank label =>
    cases h
    exact hproper
  | literal lexical suffix =>
    cases suffix with
    | none =>
      cases h
      trivial
    | language tag =>
      cases h
      exact hproper
    | datatype n =>
      obtain ⟨iri, -, h⟩ := Steps.bind_eq_ok.1 h
      split at h
      · rename_i hiri
        cases h
        exact Term.wellFormed_ofDatatype hiri lexical
      · cases h

theorem wellFormed_of_parseTerm (h : parseTerm labels input = .ok t) : t.WellFormed := by
  unfold parseTerm at h
  split at h
  · rename_i reading hread
    exact Compact.Reading.wellFormed_of_resolve (Compact.proper_of_read? hread) h
  · cases h

/-- **The term of a request value is well-formed**, if the range of its entry can be written. -/
theorem Property.wellFormed_of_value {p : Property} {raw : String}
    (hrange : ∀ r, p.range = some r → isIri r = true) (h : p.value labels raw = .ok t) :
    t.WellFormed := by
  unfold value at h
  split at h
  · rename_i datatype hdatatype
    cases h
    exact Term.wellFormed_ofDatatype (hrange _ (Option.filter_eq_some_iff.1 hdatatype).1) raw
  · split at h
    · exact Term.wellFormed_of_iri? h
    · split at h
      · cases h
        trivial
      · exact wellFormed_of_parseTerm h

end SparqlViews
