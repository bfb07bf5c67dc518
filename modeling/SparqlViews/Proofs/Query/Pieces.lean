import SparqlViews.Proofs.Query.OrderLines

/-! # What a substitution does to the pieces of a text

A text is made of quoted strings, IRIs, variables and other characters. To replace its bound variables
is to replace these pieces and to leave all others (`Piece.replaced`). The scanner tells an IRI from a
comparison by the one character behind the `<`, so that it takes some pieces for what they are not
(`misread`): what stands behind a comparison without white space, up to the next white space or `>`, is an
IRI to it, and an IRI that begins with an equals sign is none. Unless a quote is among them, a text is
replaced piece by piece exactly if no piece that is misread has a bound variable in it
(`scan_textOf_iff`).

* `Piece`, `Splits`: the pieces of a text, read from the left.
* `scan_quoted_append`, `scan_name_append`, `scan_brackets_append`: the scanner over one piece.
* `scan_append_iff`: the scanner over a text without quotes and brackets.
-/

namespace SparqlViews

theorem Term.exists_token_eq (t : Term) :
    ∃ c more, t.token = c :: more ∧ ¬ (c = '?' ∨ c = '$') := by
  cases t with
  | iri s => exact ⟨'<', _, rfl, by decide⟩
  | blank label => exact ⟨'_', _, rfl, by decide⟩
  | literal lexical kind => exact ⟨'"', _, rfl, by decide⟩

namespace Substitution

variable {bindings : Bindings} {c d quote sigil : Char} {name soFar body s t t' rest : List Char}
  {mode : Mode} {inside : Bool}

/-! ### Pieces -/

/-- **A piece of a text**: a quoted string, an IRI, a variable, or any other character. -/
inductive Piece where
  | quoted (quote : Char) (body : List Char)
  | iri (name : List Char)
  | var (sigil : Char) (name : List Char)
  | other (c : Char)

/-- A text between quotes: every backslash belongs to an escape, and the quote stands only in one. -/
def isQuotedBody (quote : Char) : List Char → Bool
  | [] => true
  | '\\' :: _ :: rest => isQuotedBody quote rest
  | c :: rest => c ≠ '\\' && c ≠ quote && isQuotedBody quote rest

/-- The text goes on like an IRI behind its opening bracket. -/
def beginsIri (rest : List Char) : Bool := (rest.dropWhile isIriChar).head? = some '>'

/-- A name in front of this text is at its end. -/
def endsName (rest : List Char) : Bool := !rest.head?.any isNameChar

/-- A character at which the scanner leaves brackets. -/
def endsBrackets (c : Char) : Bool := c = '>' || Text.isBlank c

namespace Piece

def text : Piece → List Char
  | quoted quote body => quote :: body ++ [quote]
  | iri name => '<' :: name ++ ['>']
  | var sigil name => sigil :: name
  | other c => [c]

/-- **The piece replaced**: a variable that is bound gives way to the token of its constant, and every
other piece stays as it is. -/
def replaced (bindings : Bindings) : Piece → List Char
  | var sigil name => ((bindings.get? (String.ofList name)).map Term.token).getD (sigil :: name)
  | p => p.text

/-- **The piece is the first of a text** that goes on as given. -/
def Fits (rest : List Char) : Piece → Prop
  | quoted quote body => (quote = '"' ∨ quote = '\'') ∧ isQuotedBody quote body = true
  | iri name => name.all isIriChar = true
  | var sigil name => (sigil = '?' ∨ sigil = '$') ∧ name ≠ [] ∧ name.all isNameChar = true ∧
      endsName rest = true
  | other c => (c ≠ '"' ∧ c ≠ '\'') ∧ (c = '<' → beginsIri rest = false) ∧
      (c = '?' ∨ c = '$' → endsName rest = true)

instance (rest : List Char) : (p : Piece) → Decidable (p.Fits rest)
  | quoted _ _ => inferInstanceAs (Decidable (_ ∧ _))
  | iri _ => inferInstanceAs (Decidable (_ = true))
  | var _ _ => inferInstanceAs (Decidable (_ ∧ _))
  | other _ => inferInstanceAs (Decidable (_ ∧ _))

/-- The scanner is inside of brackets behind a piece, if it is in front of it or not. -/
def behind (inside : Bool) (rest : List Char) : Piece → Bool
  | iri _ => false
  | other c => if inside then !endsBrackets c else c = '<' && opensBrackets rest
  | _ => inside

/-- **The scanner takes the piece for another one**: inside of brackets a variable, and a string at which
it leaves them; elsewhere an IRI that begins with an equals sign. -/
def isMisread (inside : Bool) : Piece → Bool
  | quoted _ body => inside && body.any endsBrackets
  | iri name => !inside && name.head? = some '='
  | var _ _ => inside
  | other _ => false

end Piece

variable {p : Piece} {ps : List Piece}

/-- The text of pieces. -/
def textOf (ps : List Piece) : List Char := ps.flatMap Piece.text

/-- **The pieces are those of their text**, read from the left. -/
def Splits : List Piece → Prop
  | [] => True
  | p :: ps => p.Fits (textOf ps) ∧ Splits ps

instance decidableSplits : (ps : List Piece) → Decidable (Splits ps)
  | [] => inferInstanceAs (Decidable True)
  | _ :: ps => have := decidableSplits ps; inferInstanceAs (Decidable (_ ∧ _))

/-- **The pieces that the scanner takes for others**, from a place on that is inside of brackets or not. -/
def misread (inside : Bool) : List Piece → List Piece
  | [] => []
  | p :: ps =>
    (if p.isMisread inside then [p] else []) ++ misread (p.behind inside (textOf ps)) ps

/-! ### Variables -/

theorem variableText_of_bound {term : Term} (sigil : Char) (hname : name ≠ [])
    (h : bindings.get? (String.ofList name) = some term) :
    variableText bindings sigil name = term.token := by
  obtain ⟨c, more, rfl⟩ := List.exists_cons_of_ne_nil hname
  simp only [variableText, h]

/-- **A variable stays as it is exactly if it is not bound**, whatever follows. -/
theorem variableText_append_iff (hsigil : sigil = '?' ∨ sigil = '$') :
    variableText bindings sigil name ++ t = sigil :: name ++ t' ↔
      Unbound bindings name ∧ t = t' := by
  constructor
  · intro h
    have hunbound : Unbound bindings name := by
      refine or_iff_not_imp_left.2 fun hname => ?_
      cases hterm : bindings.get? (String.ofList name) with
      | none => rfl
      | some term =>
        -- the token of a constant begins with another character
        obtain ⟨first, token, htoken, hfirst⟩ := term.exists_token_eq
        rw [variableText_of_bound sigil hname hterm, htoken] at h
        exact absurd ((List.cons.inj h).1 ▸ hsigil) hfirst
    rw [variableText_of_unbound sigil hunbound] at h
    exact ⟨hunbound, List.append_cancel_left h⟩
  · rintro ⟨hunbound, rfl⟩
    rw [variableText_of_unbound sigil hunbound]

theorem Piece.replaced_var (sigil : Char) (hname : name ≠ []) :
    (Piece.var sigil name).replaced bindings = variableText bindings sigil name := by
  cases hterm : bindings.get? (String.ofList name) with
  | none => rw [variableText_of_unbound sigil (.inr hterm), replaced, hterm]; rfl
  | some term => rw [variableText_of_bound sigil hname hterm, replaced, hterm]; rfl

theorem free_cons_iff : Free bindings (c :: s) ↔
    (c = '?' ∨ c = '$' → Unbound bindings (s.takeWhile isNameChar)) ∧ Free bindings s := by
  constructor
  · exact fun h => ⟨h [] c s rfl, h.of_cons⟩
  · rintro ⟨hc, hs⟩ front sigil rest heq hsigil
    cases front with
    | nil =>
      obtain ⟨rfl, rfl⟩ := List.cons.inj heq
      exact hc hsigil
    | cons d front => exact hs front sigil rest (List.cons.inj heq).2 hsigil

/-! ### The scanner over one piece -/

theorem enter_other (hquote : c ≠ '"' ∧ c ≠ '\'') (hangle : c ≠ '<')
    (hsigil : ¬ (c = '?' ∨ c = '$')) (rest : List Char) : enter c rest = ([c], .code) := by
  rw [enter, if_neg (by simp [hquote]), if_neg hangle, if_neg hsigil]

theorem enter_sigil (hsigil : c = '?' ∨ c = '$') (rest : List Char) :
    enter c rest = ([], .name c []) := by
  rcases hsigil with rfl | rfl <;> rfl

theorem scan_name_append (hname : ∀ c ∈ name, isNameChar c = true) (hrest : endsName rest = true)
    (sigil : Char) (soFar : List Char) :
    scan bindings (.name sigil soFar) (name ++ rest) =
      variableText bindings sigil (soFar ++ name) ++ scan bindings .code rest := by
  induction name generalizing soFar with
  | nil =>
    rw [List.nil_append, List.append_nil]
    cases rest with
    | nil => exact (List.append_nil _).symm
    | cons c rest =>
      have hc : ¬ isNameChar c = true := by simpa [endsName] using hrest
      rw [scan]
      exact if_neg hc
  | cons c name ih =>
    rw [List.cons_append, scan, if_pos (hname c List.mem_cons_self),
      ih (fun d hd => hname d (List.mem_cons_of_mem _ hd)), List.append_assoc]
    rfl

/-- **A variable in code** is replaced if it is bound. -/
theorem scan_var_append (hsigil : sigil = '?' ∨ sigil = '$')
    (hname : ∀ c ∈ name, isNameChar c = true) (hrest : endsName rest = true) :
    scan bindings .code (sigil :: name ++ rest) =
      variableText bindings sigil name ++ scan bindings .code rest := by
  rw [List.cons_append, scan, enter_sigil hsigil, List.nil_append, scan_name_append hname hrest,
    List.nil_append]

theorem scan_body_append (hquote : quote ≠ '\\') (hbody : isQuotedBody quote body = true)
    (rest : List Char) : scan bindings (.quoted quote) (body ++ quote :: rest) =
      body ++ quote :: scan bindings .code rest := by
  fun_induction isQuotedBody quote body with
  | case1 => rw [List.nil_append, scan, if_neg hquote, if_pos rfl, List.nil_append]
  | case2 c body ih =>
    rw [List.cons_append, List.cons_append, scan, if_pos rfl, scan, ih hbody]
    rfl
  | case3 c body hescape ih =>
    simp only [Bool.and_eq_true, decide_eq_true_eq] at hbody
    obtain ⟨⟨hback, hend⟩, hbody⟩ := hbody
    rw [List.cons_append, scan, if_neg hback, if_neg hend, ih hbody]
    rfl

theorem scan_quoted_append (hquote : quote = '"' ∨ quote = '\'')
    (hbody : isQuotedBody quote body = true) (rest : List Char) :
    scan bindings .code (quote :: body ++ quote :: rest) =
      quote :: body ++ quote :: scan bindings .code rest := by
  have hback : quote ≠ '\\' := by rcases hquote with rfl | rfl <;> decide
  have henter : enter quote (body ++ quote :: rest) = ([quote], .quoted quote) := by
    rw [enter, if_pos hquote]
  rw [List.cons_append, scan, henter, scan_body_append hback hbody]
  rfl

theorem scan_brackets_append (hs : ∀ c ∈ s, endsBrackets c = false) (rest : List Char) :
    scan bindings .brackets (s ++ rest) = s ++ scan bindings .brackets rest := by
  induction s with
  | nil => rfl
  | cons c s ih =>
    have hc : ¬ (c = '>' ∨ Text.isBlank c = true) := by
      simpa [endsBrackets] using hs c List.mem_cons_self
    rw [List.cons_append, scan, if_neg hc, ih fun d hd => hs d (List.mem_cons_of_mem _ hd)]
    rfl

theorem scan_brackets_end (hc : endsBrackets c = true) (rest : List Char) :
    scan bindings .brackets (c :: rest) = c :: scan bindings .code rest := by
  have hend : c = '>' ∨ Text.isBlank c = true := by simpa [endsBrackets] using hc
  rw [scan, if_pos hend]

theorem endsBrackets_of_isIriChar (h : isIriChar c = true) : endsBrackets c = false := by
  simp only [isIriChar, Bool.not_eq_true', Bool.or_eq_false_iff] at h
  obtain ⟨⟨hblank, -⟩, hdelimiter⟩ := h
  have hclose : c ≠ '>' := by
    rintro rfl
    exact absurd hdelimiter (by decide)
  rw [endsBrackets, hblank, Bool.or_false, decide_eq_false_iff_not]
  exact hclose

theorem endsBrackets_of_isNameChar (h : isNameChar c = true) : endsBrackets c = false := by
  have hclose : c ≠ '>' := by
    rintro rfl
    exact absurd h (by decide)
  have hblank : Text.isBlank c = false := by
    rw [isNameChar, Bool.or_eq_true, decide_eq_true_eq] at h
    rcases h with hletter | rfl
    · exact Text.not_isBlank_of_isAlphanumeric hletter
    · decide
  rw [endsBrackets, hblank, Bool.or_false, decide_eq_false_iff_not]
  exact hclose

/-- **An IRI in code is copied** unless it begins with an equals sign. -/
theorem scan_iri_append (hname : name.all isIriChar = true) (hequals : name.head? ≠ some '=')
    (rest : List Char) : scan bindings .code ('<' :: name ++ '>' :: rest) =
      '<' :: name ++ '>' :: scan bindings .code rest := by
  have hchars := List.all_eq_true.1 hname
  have hopens : opensBrackets (name ++ '>' :: rest) = true := by
    cases name with
    | nil => rfl
    | cons c more =>
      have hc := endsBrackets_of_isIriChar (hchars c List.mem_cons_self)
      have hne : c ≠ '=' := fun heq => hequals (by rw [heq]; rfl)
      rw [endsBrackets, Bool.or_eq_false_iff] at hc
      simp [opensBrackets, hc.2, hne]
  have henter : enter '<' (name ++ '>' :: rest) = (['<'], .brackets) := by
    rw [enter, if_neg (by decide), if_pos rfl, hopens]
    rfl
  rw [List.cons_append, scan, henter,
    scan_brackets_append fun c hc => endsBrackets_of_isIriChar (hchars c hc),
    scan_brackets_end (by decide)]
  rfl

/-! ### Texts without quotes and brackets -/

/-- A character that leads the scanner into no quotes and no brackets. -/
def IsPlain (c : Char) : Prop := (c ≠ '"' ∧ c ≠ '\'') ∧ c ≠ '<'

/-- The scanner is in code, or in a variable of it. -/
def Mode.IsCode : Mode → Prop
  | .code => True
  | .name sigil _ => sigil = '?' ∨ sigil = '$'
  | _ => False

theorem exists_enter_plain (hc : IsPlain c) :
    ∃ written next, next.IsCode ∧ ∀ rest, enter c rest = (written, next) := by
  by_cases hsigil : c = '?' ∨ c = '$'
  · exact ⟨[], .name c [], hsigil, enter_sigil hsigil⟩
  · exact ⟨[c], .code, trivial, enter_other hc.1 hc.2 hsigil⟩

theorem scan_plain_append (hs : ∀ c ∈ s, IsPlain c) (hmode : mode.IsCode) (rest : List Char) :
    scan bindings mode (s ++ '>' :: rest) = scan bindings mode s ++ '>' :: scan bindings .code rest := by
  induction s generalizing mode with
  | nil =>
    cases mode with
    | code => rfl
    | name sigil soFar =>
      have hc : endsName ('>' :: rest) = true := rfl
      have hnone : ∀ c ∈ ([] : List Char), isNameChar c = true := by simp
      exact (scan_name_append hnone hc sigil soFar).trans
        (by rw [List.append_nil]; rfl)
    | _ => exact hmode.elim
  | cons c s ih =>
    have hrest := fun {mode : Mode} => @ih mode fun d hd => hs d (List.mem_cons_of_mem _ hd)
    obtain ⟨written, next, hnext, henter⟩ := exists_enter_plain (hs c List.mem_cons_self)
    cases mode with
    | code =>
      rw [List.cons_append, scan, scan, henter, henter, hrest hnext, List.append_assoc]
    | name sigil soFar =>
      rw [List.cons_append, scan, scan]
      split
      · exact hrest hmode
      · rw [henter, henter, hrest hnext, List.append_assoc, List.append_assoc]
    | _ => exact hmode.elim

/-- **A text without quotes and brackets is copied exactly if it has no bound variable**, whatever is
written behind it. -/
theorem scan_append_iff (hs : ∀ c ∈ s, IsPlain c) (hmode : mode.IsCode) :
    scan bindings mode s ++ t = mode.held ++ (s ++ t') ↔
      (mode.IsFree bindings s ∧ Free bindings s) ∧ t = t' := by
  induction s generalizing mode with
  | nil =>
    have hnone : Free bindings [] := free_of_not_mem (by simp)
    cases mode with
    | code => exact ⟨fun h => ⟨⟨trivial, hnone⟩, h⟩, fun h => h.2⟩
    | name sigil soFar =>
      have hfree : (Mode.name sigil soFar).IsFree bindings [] ↔ Unbound bindings soFar := by
        rw [Mode.IsFree, List.takeWhile_nil, List.append_nil]
      rw [hfree, and_iff_left hnone]
      exact variableText_append_iff hmode
    | _ => exact hmode.elim
  | cons c s ih =>
    have hrest := fun {mode : Mode} => @ih mode fun d hd => hs d (List.mem_cons_of_mem _ hd)
    have hplain := hs c List.mem_cons_self
    have hcode : (enter c s).1 ++ scan bindings (enter c s).2 s ++ t = c :: s ++ t' ↔
        Free bindings (c :: s) ∧ t = t' := by
      rw [free_cons_iff]
      by_cases hsigil : c = '?' ∨ c = '$'
      · have hname : (Mode.name c []).IsCode := hsigil
        rw [enter_sigil hsigil, imp_iff_right hsigil]
        exact hrest hname
      · have hin : Mode.code.IsCode := trivial
        rw [enter_other hplain.1 hplain.2 hsigil, and_iff_right fun h => absurd h hsigil]
        simpa [Mode.held, Mode.IsFree] using hrest hin
    cases mode with
    | code =>
      rw [scan, and_iff_right (show Mode.code.IsFree bindings (c :: s) from trivial)]
      exact hcode
    | name sigil soFar =>
      rw [scan]
      split
      · rename_i hc
        -- the name goes on
        have hnot : ¬ (c = '?' ∨ c = '$') := by
          rintro (rfl | rfl) <;> exact absurd hc (by decide)
        have hlonger : (Mode.name sigil (soFar ++ [c])).IsCode := hmode
        have hnext := hrest hlonger
        rw [free_cons_iff, and_iff_right fun h => absurd h hnot]
        simpa [Mode.held, Mode.IsFree, hc] using hnext
      · rename_i hc
        have hfree : (Mode.name sigil soFar).IsFree bindings (c :: s) ↔ Unbound bindings soFar := by
          rw [Mode.IsFree, List.takeWhile_cons_of_neg hc, List.append_nil]
        rw [hfree, and_assoc, ← hcode, List.append_assoc]
        exact variableText_append_iff hmode
    | _ => exact hmode.elim

/-- **An IRI that begins with an equals sign** is code to the scanner. -/
theorem scan_equals_append (hname : name.head? = some '=') (hplain : ∀ c ∈ name, IsPlain c)
    (rest : List Char) : scan bindings .code ('<' :: name ++ '>' :: rest) =
      '<' :: substitute bindings name ++ '>' :: scan bindings .code rest := by
  obtain ⟨more, rfl⟩ : ∃ more, name = '=' :: more := by
    cases name with
    | nil => cases hname
    | cons c more => exact ⟨more, by rw [Option.some.inj hname]⟩
  have henter : enter '<' ('=' :: more ++ '>' :: rest) = (['<'], .code) := rfl
  have hin : Mode.code.IsCode := trivial
  rw [List.cons_append, scan, henter, scan_plain_append hplain hin]
  rfl

theorem isPlain_of_isIriChar (h : isIriChar c = true) (hquote : c ≠ '\'') : IsPlain c := by
  refine ⟨⟨?_, hquote⟩, ?_⟩ <;> rintro rfl <;> exact absurd h (by decide)

/-! ### The scanner over the pieces of a text -/

/-- The mode of the scanner between pieces. -/
def Mode.ofInside : Bool → Mode
  | true => .brackets
  | false => .code

theorem free_var_iff (hsigil : sigil = '?' ∨ sigil = '$') (hname : ∀ c ∈ name, isNameChar c = true) :
    Free bindings (sigil :: name) ↔ Unbound bindings name := by
  refine ⟨fun h => ?_, fun h => free_variable hname h sigil⟩
  have := h [] sigil name rfl hsigil
  rwa [List.takeWhile_eq_self_iff.2 hname] at this

theorem Free.of_append_cons (h : Free bindings (s ++ c :: t)) (hc : isNameChar c = false) :
    Free bindings s := by
  rintro front sigil rest rfl hsigil
  have hname := h front sigil (rest ++ c :: t) (by simp) hsigil
  have hsame : (rest ++ c :: t).takeWhile isNameChar = rest.takeWhile isNameChar := by
    rw [List.takeWhile_append, List.takeWhile_cons_of_neg (by simp [hc]), List.append_nil]
    split
    · rename_i hall
      exact ((List.takeWhile_sublist _).eq_of_length hall).symm
    · rfl
  rwa [hsame] at hname

theorem free_iri_iff : Free bindings (Piece.iri name).text ↔ Free bindings name := by
  have hopen : Free bindings (Piece.iri name).text ↔ Free bindings (name ++ ['>']) :=
    free_cons_iff.trans (and_iff_right fun h => absurd h (by decide))
  refine hopen.trans ⟨fun h => h.of_append_cons (by decide), fun h => ?_⟩
  exact h.append_cons (free_of_not_mem (by simp)) (by decide) (by decide)

/-- **The scanner takes one step over a piece**: what it writes is the piece replaced, and goes on behind
it, exactly if the piece is not misread or has no bound variable. -/
def Piece.Stepped (bindings : Bindings) (inside : Bool) (rest : List Char) (p : Piece) : Prop :=
  ∀ t, scan bindings (.ofInside inside) (p.text ++ rest) = p.replaced bindings ++ t ↔
    (p.isMisread inside = true → Free bindings p.text) ∧
      scan bindings (.ofInside (p.behind inside rest)) rest = t

namespace Piece

theorem Stepped.of_scan (hread : p.isMisread inside = false)
    (hscan : scan bindings (.ofInside inside) (p.text ++ rest) =
      p.replaced bindings ++ scan bindings (.ofInside (p.behind inside rest)) rest) :
    p.Stepped bindings inside rest := by
  intro t
  rw [hscan, hread, List.append_right_inj]
  exact (and_iff_right fun h => nomatch h).symm

theorem stepped_quoted (h : (quoted quote body).Fits rest)
    (hread : (quoted quote body).isMisread inside = false) :
    (quoted quote body).Stepped bindings inside rest := by
  obtain ⟨hquote, hbody⟩ := h
  refine .of_scan hread ?_
  cases inside with
  | false =>
    have htext : (quoted quote body).text ++ rest = quote :: body ++ quote :: rest := by simp [text]
    rw [htext]
    refine (scan_quoted_append hquote hbody rest).trans ?_
    simp [replaced, text, behind, Mode.ofInside]
  | true =>
    have hends : endsBrackets quote = false := by rcases hquote with rfl | rfl <;> decide
    have hcopied : ∀ c ∈ (quoted quote body).text, endsBrackets c = false := by
      simpa [text, isMisread, hends, or_imp, forall_and] using hread
    exact scan_brackets_append hcopied rest

theorem stepped_iri (h : (iri name).Fits rest)
    (hquotes : (iri name).isMisread inside = true → '\'' ∉ name) :
    (iri name).Stepped bindings inside rest := by
  have hchars := List.all_eq_true.1 h
  have htext : ∀ more, (iri name).text ++ more = '<' :: name ++ '>' :: more := by simp [text]
  cases inside with
  | true =>
    have hcopied : ∀ c ∈ '<' :: name, endsBrackets c = false := by
      intro c hc
      rcases List.mem_cons.1 hc with rfl | hc
      · decide
      · exact endsBrackets_of_isIriChar (hchars c hc)
    refine .of_scan rfl ?_
    rw [htext]
    refine (scan_brackets_append hcopied _).trans ?_
    rw [scan_brackets_end (by decide)]
    exact (htext _).symm
  | false =>
    by_cases hequals : name.head? = some '='
    · have hmisread : (iri name).isMisread false = true := by simp [isMisread, hequals]
      have hplain : ∀ c ∈ name, IsPlain c := fun c hc =>
        isPlain_of_isIriChar (hchars c hc) fun heq => hquotes hmisread (heq ▸ hc)
      have hin : Mode.code.IsCode := trivial
      intro t
      have hscan : scan bindings .code ('<' :: name ++ '>' :: rest) = _ :=
        scan_equals_append hequals hplain rest
      have hiff : scan bindings .code name ++ '>' :: scan bindings .code rest =
          Mode.code.held ++ (name ++ '>' :: t) ↔ _ := scan_append_iff hplain hin
      rw [imp_iff_right hmisread, free_iri_iff, htext]
      refine (Eq.congr hscan (htext t)).trans ?_
      simpa [Mode.held, Mode.IsFree, substitute, behind, Mode.ofInside] using hiff
    · have hread : (iri name).isMisread false = false := by simp [isMisread, hequals]
      refine .of_scan hread ?_
      rw [htext]
      exact (scan_iri_append h hequals rest).trans (htext _).symm

theorem stepped_var (h : (var sigil name).Fits rest) :
    (var sigil name).Stepped bindings inside rest := by
  obtain ⟨hsigil, hne, hname, hrest⟩ := h
  have hchars := List.all_eq_true.1 hname
  cases inside with
  | false =>
    refine .of_scan rfl ?_
    rw [replaced_var sigil hne]
    exact scan_var_append hsigil hchars hrest
  | true =>
    have hcopied : ∀ c ∈ sigil :: name, endsBrackets c = false := by
      intro c hc
      rcases List.mem_cons.1 hc with rfl | hc
      · rcases hsigil with rfl | rfl <;> decide
      · exact endsBrackets_of_isNameChar (hchars c hc)
    have hmisread : (var sigil name).isMisread true = true := rfl
    intro t
    rw [replaced_var sigil hne, imp_iff_right hmisread]
    refine (Eq.congr_left (scan_brackets_append hcopied rest)).trans ?_
    rw [eq_comm, variableText_append_iff hsigil, eq_comm (a := t)]
    exact and_congr_left' (free_var_iff hsigil hchars).symm

theorem stepped_other (h : (other c).Fits rest) : (other c).Stepped bindings inside rest := by
  obtain ⟨hquote, -, hlone⟩ := h
  refine .of_scan rfl ?_
  cases inside with
  | true =>
    cases hends : endsBrackets c with
    | true =>
      have hbehind : (other c).behind true rest = false := by simp [behind, hends]
      rw [hbehind]
      exact scan_brackets_end hends rest
    | false =>
      have hbehind : (other c).behind true rest = true := by simp [behind, hends]
      have hcopied : ∀ d ∈ [c], endsBrackets d = false := by simp [hends]
      rw [hbehind]
      exact scan_brackets_append hcopied rest
  | false =>
    by_cases hangle : c = '<'
    · subst hangle
      have hbehind : (other '<').behind false rest = opensBrackets rest := rfl
      rw [hbehind]
      cases hopens : opensBrackets rest with
      | true => simp [text, replaced, scan, enter, hopens, Mode.ofInside]
      | false => simp [text, replaced, scan, enter, hopens, Mode.ofInside]
    · have hbehind : (other c).behind false rest = false := by simp [behind, hangle]
      rw [hbehind]
      by_cases hsigil : c = '?' ∨ c = '$'
      · -- a sign without a name is a variable that is never bound
        have hnone : ∀ c ∈ ([] : List Char), isNameChar c = true := by simp
        have hscan : scan bindings .code (c :: rest) = _ :=
          scan_var_append hsigil hnone (hlone hsigil)
        rwa [variableText_of_unbound c (.inl rfl)] at hscan
      · exact congrArg₂ _ (congrArg Prod.fst (enter_other hquote hangle hsigil rest))
          (by rw [enter_other hquote hangle hsigil]; rfl)

/-- **The scanner takes one step over every piece**, unless there is a quote in one that is misread. -/
theorem stepped (h : p.Fits rest)
    (hquotes : p.isMisread inside = true → '"' ∉ p.text ∧ '\'' ∉ p.text) :
    p.Stepped bindings inside rest := by
  cases p with
  | quoted quote body =>
    refine stepped_quoted h (Bool.eq_false_iff.2 fun hmisread => ?_)
    obtain ⟨hdouble, hsingle⟩ := hquotes hmisread
    rcases h.1 with rfl | rfl
    · exact hdouble List.mem_cons_self
    · exact hsingle List.mem_cons_self
  | iri name =>
    refine stepped_iri h fun hmisread hmem => (hquotes hmisread).2 ?_
    exact List.mem_append_left _ (List.mem_cons_of_mem _ hmem)
  | var sigil name => exact stepped_var h
  | other c => exact stepped_other h

end Piece

/-- **A text is replaced piece by piece exactly if no piece that is misread has a bound variable**, unless
there is a quote in such a piece. -/
theorem scan_textOf_iff (h : Splits ps)
    (hquotes : ∀ p ∈ misread inside ps, '"' ∉ p.text ∧ '\'' ∉ p.text) :
    scan bindings (.ofInside inside) (textOf ps) = ps.flatMap (Piece.replaced bindings) ↔
      ∀ p ∈ misread inside ps, Free bindings p.text := by
  induction ps generalizing inside with
  | nil => cases inside <;> simp [misread, textOf, scan, Mode.ofInside]
  | cons p ps ih =>
    obtain ⟨hp, hps⟩ := h
    rw [misread, List.forall_mem_append] at hquotes ⊢
    have hhere : ∀ {P : Piece → Prop}, (∀ q ∈ if p.isMisread inside then [p] else [], P q) ↔
        (p.isMisread inside = true → P p) := by
      intro P
      split <;> simp_all
    rw [hhere] at hquotes ⊢
    have hstep : p.Stepped bindings inside (textOf ps) := Piece.stepped hp hquotes.1
    rw [textOf, List.flatMap_cons, List.flatMap_cons, ← textOf, hstep, ih hps hquotes.2]

/-! ### Whole texts -/

/-- **Nothing is misread** in a text whose comparisons stand in front of white space or an equals sign and
whose IRIs do not begin with one. -/
theorem misread_eq_nil
    (hcompare : ∀ before after, ps = before ++ .other '<' :: after → opensBrackets (textOf after) = false)
    (hiri : ∀ name, .iri name ∈ ps → name.head? ≠ some '=') : misread false ps = [] := by
  induction ps with
  | nil => rfl
  | cons p ps ih =>
    have hmore : misread false ps = [] :=
      ih (fun before after h => hcompare (p :: before) after (by rw [h]; rfl))
        fun name h => hiri name (List.mem_cons_of_mem _ h)
    have hread : p.isMisread false = false := by
      cases p with
      | iri name => simp [Piece.isMisread, hiri name List.mem_cons_self]
      | _ => rfl
    have hbehind : p.behind false (textOf ps) = false := by
      cases p with
      | other c =>
        by_cases hc : c = '<'
        · subst hc
          exact hcompare [] ps rfl
        · simp [Piece.behind, hc]
      | _ => rfl
    rw [misread, hread, hbehind, hmore]
    rfl

/-- **Bound variables are replaced where they stand.** In a text of quoted strings, IRIs, variables and
other characters, every variable that is bound gives way to the token of its constant, and all else stays
as it is, exactly if no piece that the scanner takes for another has a bound variable in it; but if there
is a quote in such a piece, the scanner may lose its place. No piece is taken for another if white space or
an equals sign follows each `<` that begins no IRI, and no IRI begins with an equals sign. -/
theorem variables_replaced_iff (bindings : Bindings) (h : Splits ps) :
    ((∀ p ∈ misread false ps, '"' ∉ p.text ∧ '\'' ∉ p.text) →
      (substitute bindings (textOf ps) = ps.flatMap (Piece.replaced bindings) ↔
        ∀ p ∈ misread false ps, Free bindings p.text)) ∧
    ((∀ before after, ps = before ++ .other '<' :: after →
        opensBrackets (textOf after) = false) →
      (∀ name, .iri name ∈ ps → name.head? ≠ some '=') →
        substitute bindings (textOf ps) = ps.flatMap (Piece.replaced bindings)) := by
  refine ⟨scan_textOf_iff h, fun hcompare hiri => ?_⟩
  have hnone := misread_eq_nil hcompare hiri
  have hiff : scan bindings (.ofInside false) (textOf ps) = ps.flatMap (Piece.replaced bindings) ↔
      ∀ p ∈ misread false ps, Free bindings p.text := scan_textOf_iff h (by simp [hnone])
  exact hiff.2 (by simp [hnone])

/-- The constants of the examples. -/
def boundMax : Bindings := (∅ : Table Term).insert "max" (.plain "9")

/-- The characters of a text that belongs to no quoted string, IRI or variable. -/
def others (s : String) : List Piece := s.toList.map .other

/-- One comparison hides a variable that is not bound, the other one, which is set apart, hides none. -/
theorem variables_replaced_of_comparisons :
    let ps := .var '?' ['v'] :: .other '<' :: .var '?' ['w'] :: others " && " ++
      .var '?' ['w'] :: others " < " ++ .var '$' "max".toList :: .other ' ' ::
        [.quoted '"' "?max".toList, .iri "?max".toList]
    Splits ps ∧ (misread false ps).map Piece.text = ["?w".toList] ∧
      textOf ps = "?v<?w && ?w < $max \"?max\"<?max>".toList ∧
      substitute boundMax (textOf ps) = "?v<?w && ?w < \"9\" \"?max\"<?max>".toList := by
  intro ps
  have hsplits : Splits ps := by decide
  have hmisread : misread false ps = [.var '?' ['w']] := rfl
  obtain ⟨hiff, -⟩ := variables_replaced_iff boundMax hsplits
  rw [hmisread] at hiff
  refine ⟨hsplits, congrArg (List.map Piece.text) hmisread, by decide, ?_⟩
  have hquotes : ∀ p ∈ [Piece.var '?' ['w']], '"' ∉ p.text ∧ '\'' ∉ p.text := by
    simp [Piece.text]
  have hfree : Free boundMax (Piece.var '?' ['w']).text := free_variable (by decide) (.inr rfl) '?'
  rw [(hiff hquotes).2 (by simpa using hfree)]
  decide

/-- **A variable is kept behind a comparison without white space**: the scanner takes it for the beginning
of an IRI. -/
theorem variable_kept_behind_comparison :
    let ps : List Piece := [.var '?' ['v'], .other '<', .var '?' "max".toList]
    Splits ps ∧ textOf ps = "?v<?max".toList ∧ boundMax.get? "max" = some (.plain "9") ∧
      substitute boundMax (textOf ps) = "?v<?max".toList ∧
      ps.flatMap (Piece.replaced boundMax) = "?v<\"9\"".toList := by
  decide

end Substitution

end SparqlViews
