import SparqlViews.Proofs.Term.Denotation

/-! # Names in request values

A name is read in two ways: as a compact text, by the grammar of its forms, or by taking off its
brackets or splitting it at its first colon. Where the first gives an IRI, the second gives the same
(`expandOrAbsolute?_of_parseTerm`), so that it does not matter to a request value which of the two an
entry asks for. An entry whose range is a datatype asks for neither (`Property.value_of_datatype`).

* `NameText.expandOrAbsolute?_eq`: the texts of a name.
-/

namespace SparqlViews

/-! ### The first colon and the brackets -/

theorem Text.splitFirst?_append {separator : Char} {front : List Char} (h : separator ∉ front)
    (rest : List Char) : splitFirst? separator (front ++ separator :: rest) = some (front, rest) := by
  induction front with
  | nil => rw [List.nil_append, splitFirst?, if_pos rfl]
  | cons c front ih =>
    rw [List.mem_cons, not_or] at h
    rw [List.cons_append, splitFirst?, if_neg (Ne.symm h.1), ih h.2]
    rfl

variable {s : String} {label more : List Char}

theorem Prefixes.bracketed?_eq {iri : List Char} (h : s.toList = '<' :: iri ++ ['>']) :
    bracketed? s = some (String.ofList iri) := by
  have hopen : Text.dropPrefix? s "<" = some (String.ofList (iri ++ ['>'])) := by
    rw [Text.dropPrefix?, h]
    simp
  have hclose : Text.dropSuffix? (String.ofList (iri ++ ['>'])) ">" = some (String.ofList iri) := by
    rw [Text.dropSuffix?, String.toList_ofList]
    simp [List.isSuffixOf?]
  rw [bracketed?, hopen]
  exact hclose

theorem Prefixes.bracketed?_eq_none (h : ∀ c ∈ s.toList.head?, c ≠ '<') : bracketed? s = none := by
  have hopen : Text.dropPrefix? s "<" = none := by
    rw [Text.dropPrefix?]
    cases hs : s.toList with
    | nil => rfl
    | cons c rest =>
      have hc : '<' ≠ c := fun heq => h c (by rw [hs]; rfl) heq.symm
      simp [List.isPrefixOf?, hc]
  rw [bracketed?, hopen]
  rfl

namespace Compact

theorem IsNamespaceLabel.colon_not_mem (h : IsNamespaceLabel label) : ':' ∉ label := by
  cases label with
  | nil => exact List.not_mem_nil
  | cons c label =>
    rw [List.mem_cons, not_or]
    refine ⟨?_, fun hmem => absurd (h.2 ':' hmem) (by decide)⟩
    rintro rfl
    exact absurd h.1 (by decide)

/-- **The texts of a name stand for the same IRI** where they are split or taken out of their
brackets. -/
theorem NameText.expandOrAbsolute?_eq {labels : Prefixes} {n : Name} {iri : String}
    (h : NameText s.toList n) (hn : n.Denotes labels iri) :
    labels.expandOrAbsolute? s = some iri := by
  generalize hs : s.toList = text at h
  cases h with
  | full hchars =>
    cases hn
    rw [Prefixes.expandOrAbsolute?, Prefixes.bracketed?_eq hs]
  | @labelled label more hlabel _ =>
    cases hn with
    | @labelled _ namespaceIri _ hnamespace =>
      have hopen : ∀ c ∈ s.toList.head?, c ≠ '<' := by
        rw [hs]
        rintro c hc rfl
        cases label with
        | nil => cases hc
        | cons d label =>
          cases hc
          exact absurd hlabel.1 (by decide)
      have hexpand : labels.expand? s = some (namespaceIri ++ String.ofList more) := by
        rw [Prefixes.expand?, hs, Text.splitFirst?_append hlabel.colon_not_mem]
        simp only [Option.bind_eq_bind, Option.bind_some, hnamespace]
      rw [Prefixes.expandOrAbsolute?, Prefixes.bracketed?_eq_none hopen, hexpand]

theorem Layout.eq_text {input before text behind : List Char} {reading : Reading}
    (h : Layout input before text behind reading) (hhead : ∀ c ∈ input.head?, c ∉ spaces)
    (hlast : ∀ c ∈ input.getLast?, c ∉ spaces) : input = text := by
  have hbefore : before = [] := by
    cases hb : before with
    | nil => rfl
    | cons c more =>
      refine absurd (h.before c ?_) (hhead c ?_)
      · rw [hb]
        exact List.mem_cons_self
      · rw [h.input_eq, hb]
        rfl
  have hbehind : behind = [] := by
    rcases List.eq_nil_or_concat behind with hb | ⟨more, c, hb⟩
    · exact hb
    · rw [List.concat_eq_append] at hb
      refine absurd (h.behind c ?_) (hlast c ?_)
      · rw [hb]
        exact List.mem_append_right _ List.mem_cons_self
      · rw [h.input_eq, hb, ← List.append_assoc, List.getLast?_concat]
        rfl
  rw [h.input_eq, hbefore, hbehind, List.append_nil, List.nil_append]

end Compact

open Compact

variable {labels : Prefixes} {i : String}

theorem expandOrAbsolute?_of_parseTerm (hhead : ∀ c ∈ s.toList.head?, c ∉ spaces)
    (hlast : ∀ c ∈ s.toList.getLast?, c ∉ spaces) (h : parseTerm labels s = .ok (.iri i)) :
    labels.expandOrAbsolute? s = some i := by
  unfold parseTerm at h
  split at h
  · rename_i reading hread
    obtain ⟨before, text, behind, hlayout⟩ := read?_eq_some_iff.1 hread
    have htext := hlayout.eq_text hhead hlast
    have hform := hlayout.form
    cases Reading.resolve_eq_iff.1 h with
    | term hdenotes _ =>
      cases hdenotes with
      | iri hn =>
        cases hform with
        | name hname => exact (htext ▸ hname).expandOrAbsolute?_eq hn
  · cases h

/-- Under an entry whose range is a datatype a text is a literal of it; one of strings has no mark. -/
theorem Property.value_of_datatype {p : Property} {r : String} (hr : p.range = some r)
    (hxsd : Text.startsWith r xsd = true) (raw : String) : p.value labels raw =
      .ok (.literal raw (if r = xsdString then .plain else .datatype r)) := by
  have hdatatype : p.datatypeRange? = some r := by
    rw [datatypeRange?, hr]
    exact Option.filter_some_pos hxsd
  rw [value, hdatatype]
  dsimp only
  rw [Term.ofDatatype]
  split <;> rfl

/-- **Entries read a name alike.** A text without white space at its ends that is read as an IRI is
expanded to the same IRI. So it stands for that IRI under every entry, with or without a range or a
value base, unless the range is a datatype: then every text is a literal of it, whatever the value base. -/
theorem names_read_alike (hhead : ∀ c ∈ s.toList.head?, c ∉ spaces)
    (hlast : ∀ c ∈ s.toList.getLast?, c ∉ spaces) (h : parseTerm labels s = .ok (.iri i)) :
    labels.expandOrAbsolute? s = some i ∧
    (∀ p : Property, (∀ r, p.range = some r → Text.startsWith r xsd = false) →
      p.value labels s = .ok (.iri i)) ∧
    ∀ (p : Property) (r : String), p.range = some r → Text.startsWith r xsd = true → ∀ raw,
      p.value labels raw =
        .ok (.literal raw (if r = xsdString then .plain else .datatype r)) := by
  have hexpand := expandOrAbsolute?_of_parseTerm hhead hlast h
  refine ⟨hexpand, fun p hrange => ?_, fun p r hr hxsd raw => Property.value_of_datatype hr hxsd raw⟩
  have hdatatype : p.datatypeRange? = none := by
    rw [Property.datatypeRange?, Option.filter_eq_none_iff]
    intro r hr
    rw [hrange r hr]
    exact Bool.false_ne_true
  have hvalid : isIri i = true := wellFormed_of_parseTerm h
  rw [Property.value, hdatatype]
  dsimp only
  rw [Property.valueIri?]
  by_cases hbase : (p.valueBase.isSome || p.range.isSome) = true
  · rw [if_pos hbase, hexpand]
    exact if_pos hvalid
  · rw [if_neg hbase]
    dsimp only
    rw [h]

/-- A label that is named like the scheme of an address, under an entry with a value base, and under one
that counts and has the same base. -/
theorem names_read_alike_of_scheme :
    let labels : Prefixes := Table.ofList [("http", "http://ex.org/h")]
    let based : Property := { name := "a", iri := "http://ex.org/a", valueBase := some "urn:" }
    let counted : Property := { based with range := some xsdInteger }
    parseTerm labels "http://a" = .ok (.iri "http://ex.org/h//a") ∧
    labels.expandOrAbsolute? "http://a" = some "http://ex.org/h//a" ∧
    based.value labels "http://a" = .ok (.iri "http://ex.org/h//a") ∧
    counted.value labels "http://a" = .ok (.literal "http://a" (.datatype xsdInteger)) := by
  intro labels based counted
  have hread : parseTerm labels "http://a" = .ok (.iri "http://ex.org/h//a") := by decide
  obtain ⟨hexpand, hvalue, hliteral⟩ := names_read_alike (by decide) (by decide) hread
  exact ⟨hread, hexpand, hvalue based (by simp [based]),
    (hliteral counted xsdInteger rfl (by decide) "http://a").trans (by decide)⟩

/-- An entry whose range is a datatype reads a name as a literal, where one without a range reads it
as an IRI; a value base makes no difference to it. -/
theorem name_under_datatype :
    let labels : Prefixes := Table.ofList [("ex", "http://ex.org/")]
    let plain : Property := { name := "a", iri := "http://ex.org/a" }
    let counted : Property := { plain with range := some xsdInteger }
    let based : Property := { counted with valueBase := some "http://ex.org/" }
    parseTerm labels "ex:b" = .ok (.iri "http://ex.org/b") ∧
    plain.value labels "ex:b" = .ok (.iri "http://ex.org/b") ∧
    counted.value labels "ex:b" = .ok (.literal "ex:b" (.datatype xsdInteger)) ∧
    based.value labels "ex:b" = .ok (.literal "ex:b" (.datatype xsdInteger)) := by
  decide

end SparqlViews
