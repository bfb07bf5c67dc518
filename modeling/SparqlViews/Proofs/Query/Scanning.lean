import Mathlib.Data.List.TakeWhile
import SparqlViews.Query.Substitution

/-! # Texts that a substitution leaves as they are

A scan copies a text in which no variable is bound, wherever it begins (`scan_of_free`). Behind a line
feed it is inside of no variable, so that the end of a text is copied if it has no bound variables,
whatever stands in front of its line (`exists_substituteBody_append`).

* `Unbound`, `Free`: a name that is not replaced, and a text with no other names.
* `Free.append_cons`, `free_variable`: such texts are put together from their parts.
-/

namespace SparqlViews.Substitution

variable {bindings : Bindings} {c sigil : Char} {name soFar s t text front rest : List Char}
  {mode : Mode}

/-! ### Names that are not replaced -/

/-- A name that is not replaced: it is empty or not bound. -/
def Unbound (bindings : Bindings) (name : List Char) : Prop :=
  name = [] ∨ bindings.get? (String.ofList name) = none

/-- **A text without bound variables.** -/
def Free (bindings : Bindings) (text : List Char) : Prop :=
  ∀ front sigil rest, text = front ++ sigil :: rest → sigil = '?' ∨ sigil = '$' →
    Unbound bindings (rest.takeWhile isNameChar)

theorem variableText_of_unbound (sigil : Char) (h : Unbound bindings name) :
    variableText bindings sigil name = sigil :: name := by
  unfold variableText
  split
  · rename_i term hterm
    rcases h with h | h
    · cases h
    · rw [h] at hterm
      cases hterm
  · rfl

@[simp] theorem free_empty (text : List Char) : Free ∅ text := fun _ _ _ _ _ => .inr rfl

theorem Free.of_append (front : List Char) (h : Free bindings (front ++ text)) :
    Free bindings text := by
  rintro before sigil rest rfl hsigil
  exact h (front ++ before) sigil rest (List.append_assoc _ _ _).symm hsigil

theorem Free.of_cons (h : Free bindings (c :: text)) : Free bindings text := h.of_append [c]

theorem Free.append_cons (hs : Free bindings s) (ht : Free bindings t) (hc : isNameChar c = false)
    (hsigil : ¬ (c = '?' ∨ c = '$')) : Free bindings (s ++ c :: t) := by
  intro front sigil rest h hopen
  rcases List.append_eq_append_iff.1 h with ⟨before, -, hbefore⟩ | ⟨behind, rfl, hbehind⟩
  · cases before with
    | nil =>
      obtain ⟨rfl, -⟩ := List.cons.inj hbefore
      exact absurd hopen hsigil
    | cons d before => exact ht before sigil rest (List.cons.inj hbefore).2 hopen
  · cases behind with
    | nil =>
      obtain ⟨rfl, -⟩ := List.cons.inj hbehind
      exact absurd hopen hsigil
    | cons d behind =>
      rw [List.cons_append] at hbehind
      obtain ⟨rfl, rfl⟩ := List.cons.inj hbehind
      have hname : (behind ++ c :: t).takeWhile isNameChar = behind.takeWhile isNameChar := by
        rw [List.takeWhile_append, List.takeWhile_cons_of_neg (by rw [hc]; decide), List.append_nil]
        split
        · rename_i hall
          exact ((List.takeWhile_sublist _).eq_of_length hall).symm
        · rfl
      rw [hname]
      exact hs front sigil behind rfl hopen

theorem free_of_not_mem (h : ∀ c ∈ s, ¬ (c = '?' ∨ c = '$')) : Free bindings s := by
  rintro front sigil rest rfl hsigil
  exact absurd hsigil (h sigil (List.mem_append_right _ List.mem_cons_self))

theorem free_variable (hname : ∀ c ∈ name, isNameChar c = true) (h : Unbound bindings name)
    (sigil : Char) : Free bindings (sigil :: name) := by
  intro front c rest heq hc
  cases front with
  | nil =>
    obtain ⟨-, rfl⟩ := List.cons.inj heq
    rwa [List.takeWhile_eq_self_iff.2 hname]
  | cons d front =>
    obtain ⟨-, rfl⟩ := List.cons.inj heq
    have := hname c (List.mem_append_right _ List.mem_cons_self)
    rcases hc with rfl | rfl <;> exact absurd this (by decide)

/-! ### What the scanner has read -/

/-- The characters that the scanner has read and not written yet. -/
def Mode.held : Mode → List Char
  | .name sigil soFar => sigil :: soFar
  | _ => []

theorem enter_held (c : Char) (rest : List Char) :
    (enter c rest).1 ++ (enter c rest).2.held = [c] := by
  unfold enter
  split_ifs <;> rfl

/-- The variable that the scanner is inside of, if any, is not bound. -/
def Mode.IsFree (bindings : Bindings) (text : List Char) : Mode → Prop
  | .name _ soFar => Unbound bindings (soFar ++ text.takeWhile isNameChar)
  | _ => True

theorem isFree_of_held (h : mode.held = []) : mode.IsFree bindings text := by
  cases mode with
  | name sigil soFar => cases h
  | _ => trivial

theorem isFree_enter (h : Free bindings (c :: rest)) : (enter c rest).2.IsFree bindings rest := by
  unfold enter
  split_ifs with hquote hangle hopen hsigil
  · trivial
  · trivial
  · trivial
  · exact h [] c rest rfl hsigil
  · trivial

/-- **A text without bound variables is copied**, wherever the scanner is, if the variable that it is
inside of is not bound either. -/
theorem scan_of_free (h : Free bindings text) (hmode : mode.IsFree bindings text) :
    scan bindings mode text = mode.held ++ text := by
  induction text generalizing mode with
  | nil =>
    cases mode with
    | name sigil soFar =>
      have hname : Unbound bindings (soFar ++ []) := hmode
      rw [List.append_nil] at hname
      rw [scan, variableText_of_unbound sigil hname, List.append_nil]
      rfl
    | _ => rfl
  | cons c rest ih =>
    have hplain : ∀ {mode : Mode}, mode.held = [] → scan bindings mode rest = rest := by
      intro mode hheld
      rw [ih h.of_cons (isFree_of_held hheld), hheld, List.nil_append]
    have hcode : (enter c rest).1 ++ scan bindings (enter c rest).2 rest = c :: rest := by
      rw [ih h.of_cons (isFree_enter h), ← List.append_assoc, enter_held]
      rfl
    cases mode with
    | code => exact hcode
    | quoted quote =>
      rw [scan, hplain (by split_ifs <;> rfl)]
      rfl
    | escaped quote =>
      rw [scan, hplain rfl]
      rfl
    | brackets =>
      rw [scan, hplain (by split_ifs <;> rfl)]
      rfl
    | name sigil soFar =>
      have hname : Unbound bindings (soFar ++ (c :: rest).takeWhile isNameChar) := hmode
      rw [scan]
      split
      · rename_i hc
        -- the name goes on
        rw [List.takeWhile_cons_of_pos hc, ← List.singleton_append, ← List.append_assoc] at hname
        have hnext : (Mode.name sigil (soFar ++ [c])).IsFree bindings rest := hname
        rw [ih h.of_cons hnext]
        simp [Mode.held]
      · rename_i hc
        rw [List.takeWhile_cons_of_neg hc, List.append_nil] at hname
        rw [hcode, variableText_of_unbound sigil hname]
        rfl

theorem substitute_of_free (h : Free bindings text) : substitute bindings text = text :=
  scan_of_free h (isFree_of_held rfl)

theorem substituteBody_of_free (h : Free bindings text) : substituteBody bindings text = text := by
  have hbody : Free bindings (text.dropWhile (· ≠ '{')) := by
    refine Free.of_append (text.takeWhile (· ≠ '{')) ?_
    rwa [List.takeWhile_append_dropWhile]
  rw [substituteBody, substitute_of_free hbody, List.takeWhile_append_dropWhile]

/-! ### The lines at the end of a text -/

/-- **Lines without bound variables are copied**, whatever the scanner is inside of before them. -/
theorem exists_scan_append (front : List Char) (h : Free bindings rest) (mode : Mode) :
    ∃ front', scan bindings mode (front ++ '\n' :: rest) = front' ++ '\n' :: rest := by
  induction front generalizing mode with
  | nil =>
    have hplain : ∀ {mode : Mode}, mode.held = [] → scan bindings mode rest = rest := by
      intro mode hheld
      rw [scan_of_free h (isFree_of_held hheld), hheld, List.nil_append]
    cases mode with
    | name sigil soFar =>
      refine ⟨variableText bindings sigil soFar, ?_⟩
      rw [List.nil_append, scan, if_neg (by decide)]
      exact congrArg _ (congrArg _ (hplain rfl))
    | _ => exact ⟨[], congrArg _ (hplain (by first | rfl | split_ifs <;> rfl))⟩
  | cons c front ih =>
    cases mode with
    | code =>
      obtain ⟨front', hfront⟩ := ih (enter c (front ++ '\n' :: rest)).2
      exact ⟨(enter c (front ++ '\n' :: rest)).1 ++ front', by
        rw [List.cons_append, scan, hfront, List.append_assoc]⟩
    | quoted quote =>
      obtain ⟨front', hfront⟩ :=
        ih (if c = '\\' then .escaped quote else if c = quote then .code else .quoted quote)
      exact ⟨c :: front', by rw [List.cons_append, scan, hfront]; rfl⟩
    | escaped quote =>
      obtain ⟨front', hfront⟩ := ih (.quoted quote)
      exact ⟨c :: front', by rw [List.cons_append, scan, hfront]; rfl⟩
    | brackets =>
      obtain ⟨front', hfront⟩ := ih (if c = '>' ∨ Text.isBlank c then .code else .brackets)
      exact ⟨c :: front', by rw [List.cons_append, scan, hfront]; rfl⟩
    | name sigil soFar =>
      rw [List.cons_append, scan]
      split
      · exact ih (.name sigil (soFar ++ [c]))
      · obtain ⟨front', hfront⟩ := ih (enter c (front ++ '\n' :: rest)).2
        exact ⟨variableText bindings sigil soFar ++ ((enter c (front ++ '\n' :: rest)).1 ++ front'), by
          rw [hfront]; simp only [List.append_assoc]⟩

theorem substituteBody_cons (bindings : Bindings) (c : Char) (rest : List Char) :
    substituteBody bindings (c :: rest) =
      if c = '{' then substitute bindings (c :: rest) else c :: substituteBody bindings rest := by
  unfold substituteBody
  by_cases hc : c = '{' <;> simp [hc]

theorem exists_substituteBody_append (front : List Char) (h : Free bindings rest) :
    ∃ front', substituteBody bindings (front ++ '\n' :: rest) = front' ++ '\n' :: rest := by
  induction front with
  | nil =>
    exact ⟨[], by
      rw [List.nil_append, substituteBody_cons, if_neg (by decide), substituteBody_of_free h]⟩
  | cons c front ih =>
    rw [List.cons_append, substituteBody_cons]
    split
    · exact exists_scan_append (c :: front) h .code
    · obtain ⟨front', hfront⟩ := ih
      exact ⟨c :: front', congrArg (c :: ·) hfront⟩

end SparqlViews.Substitution
