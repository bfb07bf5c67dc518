import SparqlViews.Proofs.Query.Pieces
import SparqlViews.Proofs.Table

/-! # Texts that name no bound variable

A substitution writes every character that it reads, or else the token of a constant in place of a variable.
So a text is copied if no bound name stands behind a `?` or a `$` in it (`texts_without_bound_names_copied`),
inside of quotes and brackets or not, and however the text ends: in an open quote, in an open bracket, at a
backslash, at a sign without a name.

* `Names`: a name stands behind a sign somewhere in a text.
* `free_of_not_names`: then the scanner reads no bound variable. A variable whose name only begins with a bound
  one is not bound, so the converse does not hold.
-/

namespace SparqlViews.Substitution

variable {bindings : Bindings} {text : List Char}

/-- **The text names a variable**: the name stands behind a `?` or a `$`, whatever follows it. -/
def Names (text : List Char) (name : String) : Prop :=
  '?' :: name.toList <:+: text ∨ '$' :: name.toList <:+: text

instance (text : List Char) (name : String) : Decidable (Names text name) :=
  inferInstanceAs (Decidable (_ ∨ _))

theorem names_of_beginning {front rest : List Char} {sigil : Char} {name : String}
    (hsigil : sigil = '?' ∨ sigil = '$') (h : name.toList <+: rest) :
    Names (front ++ sigil :: rest) name := by
  have hinfix : sigil :: name.toList <:+: front ++ sigil :: rest :=
    ((List.prefix_cons_inj sigil).2 h).isInfix.trans (List.suffix_append front _).isInfix
  rcases hsigil with rfl | rfl
  · exact .inl hinfix
  · exact .inr hinfix

/-- **A text that names no bound variable has none.** -/
theorem free_of_not_names
    (h : ∀ name term, bindings.get? name = some term → name ≠ "" → ¬ Names text name) :
    Free bindings text := by
  rintro front sigil rest rfl hsigil
  refine or_iff_not_imp_left.2 fun hname => ?_
  cases hterm : bindings.get? (String.ofList (rest.takeWhile isNameChar)) with
  | none => rfl
  | some term =>
    have hne : String.ofList (rest.takeWhile isNameChar) ≠ "" := by
      intro hempty
      exact hname (by simpa using congrArg String.toList hempty)
    refine absurd (names_of_beginning hsigil ?_) (h _ term hterm hne)
    rw [String.toList_ofList]
    exact List.takeWhile_prefix isNameChar

/-- **A text that names no bound variable is copied**, character for character. In a text without quotes and
brackets nothing else keeps a bound variable: it is copied exactly if no variable in it, read to the end of its
name, is bound. -/
theorem texts_without_bound_names_copied (bindings : Bindings) (text : List Char) :
    ((∀ name term, bindings.get? name = some term → name ≠ "" → ¬ Names text name) →
      substitute bindings text = text) ∧
    ((∀ c ∈ text, IsPlain c) → (substitute bindings text = text ↔ Free bindings text)) := by
  refine ⟨fun h => substitute_of_free (free_of_not_names h), fun hplain => ?_⟩
  have hin : Mode.code.IsCode := trivial
  have hiff : scan bindings .code text ++ [] = text ++ [] ↔ _ := scan_append_iff hplain hin
  rw [List.append_nil, List.append_nil] at hiff
  refine hiff.trans ((and_iff_left rfl).trans (and_iff_right ?_))
  trivial

/-- Texts that end in an open quote with a backslash, in an open bracket, and at a sign without a name. -/
theorem texts_without_bound_names_copied_of_open : ∀ text ∈
    ["?v = 'é $mx \\".toList, "?v <http://e/?ma".toList, "?min < $".toList],
      (∀ name term, boundMax.get? name = some term → name ≠ "" → ¬ Names text name) ∧
      substitute boundMax text = text := by
  intro text htext
  have hnone : ¬ Names text "max" := by
    revert text
    decide
  have hbound : ∀ name term, boundMax.get? name = some term → name ≠ "" → ¬ Names text name := by
    intro name term hterm _
    have hmem := Table.mem_entries_of_get? hterm
    obtain rfl : name = "max" := (Prod.mk.inj (List.mem_singleton.1 hmem)).1
    exact hnone
  exact ⟨hbound, (texts_without_bound_names_copied boundMax text).1 hbound⟩

end SparqlViews.Substitution
