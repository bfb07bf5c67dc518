import SparqlViews.Proofs.Term.Token

/-! # Terms that are written and read back

What a well-formed term is written as is read as that term, whatever labels are declared: no other form
begins like it, and the form that does takes all of it (`form?_token`). An escaped text is read back
up to the quote behind it (`quotedBody?_escape`), so that no two texts are escaped alike.

* `fullIri?_append`: an IRI between angle brackets.
* `lower_of_isLanguageTag`: a proper language tag is in lower case already.
-/

namespace SparqlViews

/-! ### Lower case -/

theorem Text.lt_of_isSmall {c : Char} (h : isSmall c = true) : c.toNat < 128 := by
  rcases Bool.or_eq_true_iff.1 h with hlower | hdigit
  · exact lt_of_isAlphanum (isAlphanum_of_isAlpha (isAlpha_of_isLower hlower))
  · exact lt_of_isAlphanum (isAlphanum_of_isDigit hdigit)

theorem Text.toLower_of_isSmall {c : Char} (h : isSmall c = true) : c.toLower = c := by
  have hall := forall_ascii (p := fun c => !isSmall c || c.toLower == c) (by decide)
    (lt_of_isSmall h)
  simp only [h, Bool.not_true, Bool.false_or, beq_iff_eq] at hall
  exact hall

theorem isSmall_or_hyphen_of_isLanguageTag {tag : String} (h : isLanguageTag tag = true) :
    ∀ c ∈ tag.toList, Text.isSmall c = true ∨ c = '-' := by
  unfold isLanguageTag at h
  split at h
  · cases h
  · rename_i first parts hfields
    simp only [Bool.and_eq_true, List.all_eq_true] at h
    obtain ⟨⟨-, hfirst⟩, hparts⟩ := h
    intro c hc
    rw [Text.eq_of_fields hfields] at hc
    rcases List.mem_append.1 hc with hc | hc
    · exact .inl (Bool.or_eq_true_iff.2 (.inl (hfirst c hc)))
    · obtain ⟨part, hpart, hc⟩ := List.mem_flatMap.1 hc
      rcases List.mem_cons.1 hc with rfl | hc
      · exact .inr rfl
      · exact .inl ((hparts part hpart).2 c hc)

theorem lower_of_isLanguageTag {tag : String} (h : isLanguageTag tag = true) :
    Text.lower tag = tag := by
  have hchars := isSmall_or_hyphen_of_isLanguageTag h
  have hsame : ∀ c ∈ tag.toList, c.toLower = c := by
    intro c hc
    rcases hchars c hc with hsmall | rfl
    · exact Text.toLower_of_isSmall hsmall
    · rfl
  have hascii : ∀ c ∈ tag.toList, c.toNat < 128 := by
    intro c hc
    rcases hchars c hc with hsmall | rfl
    · exact Text.lt_of_isSmall hsmall
    · decide
  rw [Text.lower, Text.lowerFrom_of_ascii hascii, List.map_congr_left hsame, List.map_id',
    String.ofList_toList]

/-! ### Quoted texts -/

namespace Compact

theorem quotedBody?_quote (quote : Char) (rest : List Char) :
    quotedBody? quote (quote :: rest) = some ([], rest) := by
  rw [quotedBody?.eq_def]
  exact if_pos rfl

theorem quotedBody?_backslash {quote : Char} (h : quote ≠ '\\') (c : Char) (rest : List Char) :
    quotedBody? quote ('\\' :: c :: rest) =
      (quotedBody? quote rest).map fun (body, after) => (unescapeChar c :: body, after) := by
  rw [quotedBody?.eq_def]
  exact if_neg h.symm

theorem quotedBody?_of_ne {quote c : Char} (hquote : c ≠ quote) (hback : c ≠ '\\')
    (rest : List Char) :
    quotedBody? quote (c :: rest) =
      (quotedBody? quote rest).map fun (body, after) => (c :: body, after) := by
  rw [quotedBody?.eq_def]
  exact (if_neg hquote).trans (if_neg hback)

/-- **An escaped text is read back**, up to the quote behind it. -/
theorem quotedBody?_escape (body rest : List Char) :
    quotedBody? '"' (escape body ++ '"' :: rest) = some (body, rest) := by
  induction body with
  | nil => exact quotedBody?_quote '"' rest
  | cons c body ih =>
    have hpair : ∀ d, quotedBody? '"' ('\\' :: d :: (escape body ++ '"' :: rest)) =
        some (unescapeChar d :: body, rest) := by
      intro d
      rw [quotedBody?_backslash (by decide), ih]
      rfl
    rw [escape, List.flatMap_cons, ← escape, List.append_assoc]
    unfold escapeChar
    split_ifs with hback hquote hline hreturn htab
    · rw [hback]
      exact hpair '\\'
    · rw [hquote]
      exact hpair '"'
    · rw [hline]
      exact hpair 'n'
    · rw [hreturn]
      exact hpair 'r'
    · rw [htab]
      exact hpair 't'
    · -- any other character stands for itself
      rw [List.singleton_append, quotedBody?_of_ne hquote hback, ih]
      rfl

/-! ### Forms -/

theorem fullIri?_append {s : String} (h : isIri s = true) (rest : List Char) :
    fullIri? ('<' :: s.toList ++ '>' :: rest) = some (.full s, rest) := by
  have hchars : ∀ c ∈ s.toList, isIriChar c = true := List.all_eq_true.1 h
  have hclose : ∀ c ∈ ('>' :: rest).head?, isIriChar c = false := by
    rintro c hc
    cases hc
    decide
  rw [List.cons_append, fullIri?, Token.dropWhile_run hchars hclose,
    Token.takeWhile_run hchars hclose, String.ofList_toList]
  rfl

theorem quotedLiteral?_token (lexical : String) (carried : List Char) :
    quotedLiteral? ('"' :: escape lexical.toList ++ '"' :: carried) =
      match language? carried with
      | some (tag, after) => some (.literal lexical (.language tag), after)
      | none =>
        match datatype? carried with
        | some (name, after) => some (.literal lexical (.datatype name), after)
        | none => some (.literal lexical .none, carried) := by
  have hquoted : quoted? ('"' :: (escape lexical.toList ++ '"' :: carried)) =
      some (lexical.toList, carried) := by
    rw [quoted?, if_pos (.inl rfl), quotedBody?_escape]
  rw [List.cons_append, quotedLiteral?, hquoted]
  cases hlanguage : language? carried with
  | some found => simp [hlanguage]
  | none => cases hdatatype : datatype? carried <;> simp [hlanguage, hdatatype]

/-- What a well-formed term says when it is written. -/
def Reading.ofTerm : Term → Reading
  | .iri s => .name (.full s)
  | .blank label => .blank label
  | .literal lexical .plain => .literal lexical .none
  | .literal lexical (.language tag) => .literal lexical (.language tag)
  | .literal lexical (.datatype iri) => .literal lexical (.datatype (.full iri))

/-- **The form of a written term takes all of it.** -/
theorem form?_token {t : Term} (ht : t.WellFormed) : form? t.token = some (.ofTerm t, []) := by
  have hends : Token.Ends [] := fun _ hc => nomatch hc
  cases t with
  | iri s =>
    have hname : name? (Term.iri s).token = some (.full s, []) := by
      rw [name?, Term.token, fullIri?_append ht []]
      rfl
    have hquoted : quotedLiteral? (Term.iri s).token = none := rfl
    rw [form?, hquoted, hname]
    rfl
  | blank label =>
    have hblank : blank? (Term.blank label).token = some (label, []) := by
      have hread := Token.blank?_append ht.1 ht.2 hends
      rwa [List.append_nil] at hread
    have hquoted : quotedLiteral? (Term.blank label).token = none := rfl
    have hname : name? (Term.blank label).token = none := rfl
    rw [form?, hquoted, hname, hblank]
    rfl
  | literal lexical kind =>
    have hread : quotedLiteral? (Term.literal lexical kind).token =
        some (.ofTerm (.literal lexical kind), []) := by
      rw [Term.token.eq_def]
      dsimp only
      rw [quotedLiteral?_token]
      cases kind with
      | plain => rfl
      | language tag =>
        have htag := Token.language?_append ht hends
        rw [List.append_nil] at htag
        dsimp only
        rw [htag]
        rfl
      | datatype name =>
        have hname : datatype? ('^' :: '^' :: '<' :: name.toList ++ ['>']) = some (.full name, []) := by
          have hiri := fullIri?_append ht.1 []
          rw [List.cons_append] at hiri
          rw [List.cons_append, List.cons_append, List.cons_append, datatype?, name?, hiri]
          rfl
        have hlanguage : language? ('^' :: '^' :: '<' :: name.toList ++ ['>']) = none := rfl
        dsimp only
        rw [hlanguage, hname]
        rfl
    rw [form?, hread]
    rfl

theorem read?_token {t : Term} (ht : t.WellFormed) : read? t.token = some (.ofTerm t) := by
  have hspace : t.token.dropWhile isSpace = t.token := by
    cases t <;> rfl
  rw [read?, hspace, form?_token ht]
  rfl

/-- **Looking up the labels of a written term gives that term.** -/
theorem resolve_ofTerm {t : Term} (ht : t.WellFormed) (labels : Prefixes) (input : String) :
    (Reading.ofTerm t).resolve labels input = .ok t := by
  cases t with
  | iri s =>
    have hs : isIri s = true := ht
    show Term.iri? s = .ok (.iri s)
    rw [Term.iri?, if_pos hs]
  | blank label => rfl
  | literal lexical kind =>
    cases kind with
    | plain => rfl
    | language tag =>
      show Except.ok (Term.ofLanguage lexical tag) = _
      rw [Term.ofLanguage, lower_of_isLanguageTag ht]
    | datatype name =>
      show (if isIri name then Except.ok (Term.ofDatatype lexical name) else _) = _
      rw [if_pos ht.1, Term.ofDatatype, if_neg ht.2]

end Compact

/-- **What is written is read back.** A well-formed term is the term of its token, whatever labels are
declared. An escaped text is read back up to the quote behind it, whatever follows, and no two texts are
escaped alike. -/
theorem written_terms_are_read :
    (∀ (t : Term) (labels : Prefixes), t.WellFormed → parseTerm labels t.toSparql = .ok t) ∧
    (∀ body rest : List Char,
      Compact.quotedBody? '"' (escape body ++ '"' :: rest) = some (body, rest)) ∧
    Function.Injective escapeText := by
  refine ⟨fun t labels ht => ?_, Compact.quotedBody?_escape, fun a b h => ?_⟩
  · rw [parseTerm, Term.toSparql, String.toList_ofList, Compact.read?_token ht]
    exact Compact.resolve_ofTerm ht labels _
  · have hescape : escape a.toList = escape b.toList := String.ofList_injective h
    have ha := Compact.quotedBody?_escape a.toList []
    rw [hescape, Compact.quotedBody?_escape b.toList []] at ha
    exact String.toList_injective (congrArg Prod.fst (Option.some.inj ha)).symm

/-- A text that ends with a backslash, after one that stands before an `n` and a null character. -/
theorem written_terms_are_read_of_backslash :
    let t : Term := .literal "\\n\"\x00\n\\" (.language "en-gb2")
    t.WellFormed ∧ parseTerm ∅ t.toSparql = .ok t := by
  intro t
  have ht : t.WellFormed := show isLanguageTag "en-gb2" = true by decide
  exact ⟨ht, written_terms_are_read.1 t ∅ ht⟩

end SparqlViews
