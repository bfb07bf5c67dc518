import SparqlViews.Proofs.Query.Pieces

/-! # Constants in a text that is substituted in

A constant that stands in a text is a quoted string with what it carries, an IRI, or a label. An escaped
text never leads the scanner out of its quotes (`isQuotedBody_escape`), and an IRI that begins otherwise
than with an equals sign is read as one. So a constant is copied, whatever looks like a variable in it
(`scan_token_iff`).

* `Term.Writable`: the terms with an IRI, a language or a label that can be written.
* `constants_copied_iff`: what a substitution does to their tokens.
-/

namespace SparqlViews

namespace Term

/-- **The terms that can be written**: an IRI or a datatype of characters that may stand in one, a language
of ASCII letters, digits and hyphens, a label of its characters; the text of a literal is any. -/
def Writable : Term → Prop
  | .iri s => isIri s = true
  | .blank label => label.toList.all isLabelChar = true
  | .literal _ .plain => True
  | .literal _ (.language tag) => (tag.toList.all fun c => c.isAlphanum || c = '-') = true
  | .literal _ (.datatype name) => isIri name = true

instance : (t : Term) → Decidable t.Writable
  | .iri _ => inferInstanceAs (Decidable (_ = true))
  | .blank _ => inferInstanceAs (Decidable (_ = true))
  | .literal _ .plain => inferInstanceAs (Decidable True)
  | .literal _ (.language _) => inferInstanceAs (Decidable (_ = true))
  | .literal _ (.datatype _) => inferInstanceAs (Decidable (_ = true))

/-- The IRI in the token of a term, if it begins with an equals sign. -/
def equalsIri? : Term → Option (List Char)
  | .iri s | .literal _ (.datatype s) => if s.toList.head? = some '=' then some s.toList else none
  | .blank _ | .literal _ _ => none

end Term

namespace Substitution

variable {bindings : Bindings} {c : Char} {name s t rest : List Char} {lexical : String}

/-! ### Parts of a token -/

theorem isQuotedBody_escape (s : List Char) : isQuotedBody '"' (escape s) = true := by
  induction s with
  | nil => rfl
  | cons c s ih =>
    rw [escape, List.flatMap_cons, ← escape]
    unfold escapeChar
    split_ifs with hback hquote hline hreturn htab
    · exact ih
    · exact ih
    · exact ih
    · exact ih
    · exact ih
    · -- any other character stands for itself
      rw [List.singleton_append, isQuotedBody, ih]
      · simp [hback, hquote]
      · exact fun _ _ heq _ => hback heq

/-- **A character that means nothing to the scanner** in code. -/
def IsInert (c : Char) : Prop := IsPlain c ∧ ¬ (c = '?' ∨ c = '$')

instance (c : Char) : Decidable (IsInert c) := by
  unfold IsInert IsPlain
  infer_instance

theorem scan_inert_append (hs : ∀ c ∈ s, IsInert c) (rest : List Char) :
    scan bindings .code (s ++ rest) = s ++ scan bindings .code rest := by
  induction s with
  | nil => rfl
  | cons c s ih =>
    obtain ⟨⟨hquote, hangle⟩, hsigil⟩ := hs c List.mem_cons_self
    rw [List.cons_append, scan, enter_other hquote hangle hsigil,
      ih fun d hd => hs d (List.mem_cons_of_mem _ hd)]
    rfl

theorem isInert_of_isLabelChar (h : isLabelChar c = true) : IsInert c := by
  have hne : ∀ d ∈ ['"', '\'', '<', '?', '$'], c ≠ d := by
    rintro d hd rfl
    have hnone : ∀ d ∈ ['"', '\'', '<', '?', '$'], isLabelChar d = false := by decide
    rw [hnone c hd] at h
    cases h
  simpa [IsInert, IsPlain, and_assoc] using hne

theorem isLabelChar_of_tag (h : (c.isAlphanum || c = '-') = true) : isLabelChar c = true := by
  rw [Bool.or_eq_true, decide_eq_true_eq] at h
  rcases h with hletter | rfl
  · rw [isLabelChar, Text.isAlphanumeric_of_lt (Text.lt_of_isAlphanum hletter), hletter]
    rfl
  · decide

/-- **The IRI of a token** is copied unless it begins with an equals sign; then it has to have no bound
variable. -/
theorem scan_iri_iff (hname : name.all isIriChar = true)
    (hquote : name.head? = some '=' → '\'' ∉ name) :
    scan bindings .code ('<' :: name ++ '>' :: rest) = '<' :: name ++ '>' :: t ↔
      (name.head? = some '=' → Free bindings name) ∧ scan bindings .code rest = t := by
  have hstep : (Piece.iri name).Stepped bindings false rest :=
    Piece.stepped_iri hname (by simpa [Piece.isMisread] using hquote)
  have hstep := hstep t
  rw [free_iri_iff] at hstep
  simpa [Piece.isMisread, Piece.text, Piece.replaced, Piece.behind, Mode.ofInside] using hstep

/-! ### Tokens -/

theorem scan_literal_iff (lexical carried : List Char) :
    scan bindings .code ('"' :: escape lexical ++ '"' :: carried) =
        '"' :: escape lexical ++ '"' :: t ↔
      scan bindings .code carried = t := by
  rw [scan_quoted_append (.inl rfl) (isQuotedBody_escape lexical)]
  simp

theorem forall_mem_equals_iff {P : List Char → Prop} :
    (∀ s ∈ if name.head? = some '=' then some name else none, P s) ↔
      (name.head? = some '=' → P name) := by
  split <;> simp_all

/-- **A constant in code is copied** unless it has an IRI that begins with an equals sign; then this has to
have no bound variable. -/
theorem scan_token_iff {term : Term} (h : term.Writable)
    (hquote : ∀ s ∈ term.equalsIri?, '\'' ∉ s) :
    scan bindings .code (term.token ++ rest) = term.token ++ t ↔
      (∀ s ∈ term.equalsIri?, Free bindings s) ∧ scan bindings .code rest = t := by
  cases term with
  | iri s =>
    rw [Term.equalsIri?, forall_mem_equals_iff] at hquote ⊢
    simpa [Term.token] using scan_iri_iff h hquote
  | blank label =>
    have hlabel : ∀ c ∈ (Term.blank label).token, IsInert c := by
      intro c hc
      rcases List.mem_cons.1 hc with rfl | hc
      · decide
      · rcases List.mem_cons.1 hc with rfl | hc
        · decide
        · exact isInert_of_isLabelChar (List.all_eq_true.1 h c hc)
    rw [scan_inert_append hlabel, List.append_right_inj]
    simp [Term.equalsIri?]
  | literal lexical kind =>
    cases kind with
    | plain =>
      simpa [Term.token, Term.equalsIri?] using scan_literal_iff lexical.toList rest
    | language tag =>
      have htag : ∀ c ∈ '@' :: tag.toList, IsInert c := by
        intro c hc
        rcases List.mem_cons.1 hc with rfl | hc
        · decide
        · exact isInert_of_isLabelChar (isLabelChar_of_tag (List.all_eq_true.1 h c hc))
      have hliteral : scan bindings .code ('"' :: escape lexical.toList ++
          '"' :: ('@' :: tag.toList ++ rest)) =
            '"' :: escape lexical.toList ++ '"' :: ('@' :: tag.toList ++ t) ↔ _ :=
        scan_literal_iff lexical.toList ('@' :: tag.toList ++ rest)
      rw [scan_inert_append htag, List.append_right_inj] at hliteral
      simpa [Term.token, Term.equalsIri?] using hliteral
    | datatype iri =>
      have hmarks : ∀ c ∈ ['^', '^'], IsInert c := by decide
      rw [Term.equalsIri?, forall_mem_equals_iff] at hquote ⊢
      have hliteral : scan bindings .code ('"' :: escape lexical.toList ++
          '"' :: (['^', '^'] ++ ('<' :: iri.toList ++ '>' :: rest))) =
            '"' :: escape lexical.toList ++
              '"' :: (['^', '^'] ++ ('<' :: iri.toList ++ '>' :: t)) ↔ _ :=
        scan_literal_iff lexical.toList (['^', '^'] ++ ('<' :: iri.toList ++ '>' :: rest))
      rw [scan_inert_append hmarks, List.append_right_inj, scan_iri_iff h hquote] at hliteral
      simpa [Term.token] using hliteral

/-- **Constants are copied, whatever looks like a variable in them.** A substitution leaves the token of a
term that can be written as it is, alone and in front of any text, exactly if the term has no IRI that begins
with an equals sign or this has no bound variable in it. (An IRI with such a beginning and an apostrophe may
hide what follows.) -/
theorem constants_copied_iff (bindings : Bindings) {term : Term} (h : term.Writable)
    (hquote : ∀ s ∈ term.equalsIri?, '\'' ∉ s) :
    (substitute bindings term.token = term.token ↔ ∀ s ∈ term.equalsIri?, Free bindings s) ∧
      ((∀ s ∈ term.equalsIri?, Free bindings s) → ∀ rest,
        substitute bindings (term.token ++ rest) = term.token ++ substitute bindings rest) := by
  refine ⟨?_, fun hfree rest => (scan_token_iff h hquote).2 ⟨hfree, rfl⟩⟩
  have hiff : scan bindings .code (term.token ++ []) = term.token ++ [] ↔ _ :=
    scan_token_iff h hquote
  rw [List.append_nil] at hiff
  exact hiff.trans (and_iff_left rfl)

/-- A text in quotes, which it ends with a backslash, and with the name of a variable in it. -/
theorem constants_copied_of_backslash :
    let term : Term := .literal "\"?max\" $max\\" (.datatype "http://e/?max")
    term.Writable ∧ term.equalsIri? = none ∧
      term.token = "\"\\\"?max\\\" $max\\\\\"^^<http://e/?max>".toList ∧
      substitute boundMax term.token = term.token ∧
      substitute boundMax (term.token ++ " ?max".toList) = term.token ++ " \"9\"".toList := by
  intro term
  have hterm : term.Writable := by decide
  have hnone : term.equalsIri? = none := by decide
  obtain ⟨hiff, hrest⟩ := constants_copied_iff boundMax hterm (by simp [hnone])
  have hfree : ∀ s ∈ term.equalsIri?, Free boundMax s := by simp [hnone]
  refine ⟨hterm, hnone, by decide, hiff.2 hfree, ?_⟩
  rw [hrest hfree]
  decide

/-- **An IRI that begins with an equals sign is changed**: the scanner takes its bracket for a comparison. -/
theorem iri_changed_behind_equals_sign :
    Term.iri? "=?max" = .ok (.iri "=?max") ∧
      substitute boundMax (Term.iri "=?max").token = "<=\"9\">".toList ∧
      (Term.iri "=?max").token = "<=?max>".toList := by
  decide

end Substitution

end SparqlViews
