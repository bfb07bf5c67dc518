import SparqlViews.Proofs.Term.RoundTrip

/-! # The grammar of compact texts

The forms of a term as a grammar, which knows nothing of how a text is read: there is no order among
the forms, and nothing is said about how far a run of characters goes. A form that stands before
white space is taken to its end, whichever readers are tried before its own (`Form.form?_append`), so
that no form takes a text away from another one.

* `Form`, `Layout`: a form, and a whole text, which is a form with white space around it.
* `labelledName?_append`, `quotedLiteral?_append`, `number?_append`: the readers at the front of a text.
* `numberDatatype_eq`: the datatype of a number, from its parts.
-/

namespace SparqlViews.Compact

/-! ### The grammar -/

/-- A namespace label: nothing, or a letter and then letters, digits, underscores and hyphens. -/
def IsNamespaceLabel : List Char → Prop
  | [] => True
  | c :: rest => isLetter c = true ∧ ∀ d ∈ rest, isNamespaceChar d = true

/-- The texts of a name: an IRI between angle brackets, or a label and the rest around a colon. -/
inductive NameText : List Char → Name → Prop
  | full {iri : List Char} (hchars : ∀ c ∈ iri, isIriChar c = true) :
      NameText ('<' :: iri ++ ['>']) (.full (String.ofList iri))
  | labelled {label more : List Char} (hlabel : IsNamespaceLabel label)
      (hmore : ∀ c ∈ more, isRestChar c = true) :
      NameText (label ++ ':' :: more) (.labelled (String.ofList label) (String.ofList more))

/-- What stands between quotes, and what it means: a backslash takes the next character with it. -/
inductive QuotedText (quote : Char) : List Char → List Char → Prop
  | nil : QuotedText quote [] []
  | plain {c : Char} {text body : List Char} (hquote : c ≠ quote) (hback : c ≠ '\\')
      (h : QuotedText quote text body) : QuotedText quote (c :: text) (c :: body)
  | escaped (c : Char) {text body : List Char} (h : QuotedText quote text body) :
      QuotedText quote ('\\' :: c :: text) (unescapeChar c :: body)

/-- What may stand behind a quoted text. -/
inductive SuffixText : List Char → Suffix → Prop
  | none : SuffixText [] .none
  | language {first : List Char} {parts : List (List Char)} (hne : first ≠ [])
      (hfirst : ∀ c ∈ first, isLetter c = true) (hparts : ∀ p ∈ parts, IsPart p) :
      SuffixText ('@' :: (first ++ parts.flatMap ('-' :: ·)))
        (.language (String.ofList (first ++ parts.flatMap ('-' :: ·))))
  | datatype {text : List Char} {n : Name} (h : NameText text n) :
      SuffixText ('^' :: '^' :: text) (.datatype n)

/-- A sign, or none. -/
def IsSign (s : List Char) : Prop := s = [] ∨ s = ['+'] ∨ s = ['-']

def IsDigits (cs : List Char) : Prop := ∀ c ∈ cs, c.isDigit = true

/-- Digits with or without a point, and whether there is one. -/
inductive Mantissa : List Char → Bool → Prop
  | whole {digits : List Char} (hne : digits ≠ []) (hdigits : IsDigits digits) :
      Mantissa digits false
  | pointed {digits fraction : List Char} (hne : digits ≠ []) (hdigits : IsDigits digits)
      (hfraction : IsDigits fraction) : Mantissa (digits ++ '.' :: fraction) true
  | fraction {digits : List Char} (hne : digits ≠ []) (hdigits : IsDigits digits) :
      Mantissa ('.' :: digits) true

/-- The exponent of a number. -/
inductive Exponent : List Char → Prop
  | intro {c : Char} {s digits : List Char} (hc : c = 'e' ∨ c = 'E') (hs : IsSign s)
      (hne : digits ≠ []) (hdigits : IsDigits digits) : Exponent (c :: s ++ digits)

/-- **The texts of a number, with its datatype**: a number with an exponent is a double, another one
with a point is a decimal, and one with neither is an integer. -/
inductive NumberText : List Char → String → Prop
  | integer {s m : List Char} (hs : IsSign s) (hm : Mantissa m false) :
      NumberText (s ++ m) xsdInteger
  | decimal {s m : List Char} (hs : IsSign s) (hm : Mantissa m true) :
      NumberText (s ++ m) xsdDecimal
  | double {s m e : List Char} {hasPoint : Bool} (hs : IsSign s) (hm : Mantissa m hasPoint)
      (he : Exponent e) : NumberText (s ++ m ++ e) xsdDouble

/-- **The forms of a term**, each with what it says. -/
inductive Form : List Char → Reading → Prop
  | name {text : List Char} {n : Name} (h : NameText text n) : Form text (.name n)
  | blank {label : List Char} (hne : label ≠ []) (hchars : ∀ c ∈ label, isLabelChar c = true) :
      Form ('_' :: ':' :: label) (.blank (String.ofList label))
  | quoted {quote : Char} {text body carried : List Char} {suffix : Suffix}
      (hquote : quote = '"' ∨ quote = '\'') (hbody : QuotedText quote text body)
      (hsuffix : SuffixText carried suffix) :
      Form (quote :: text ++ quote :: carried) (.literal (String.ofList body) suffix)
  | number {text : List Char} {datatype : String} (h : NumberText text datatype) :
      Form text (.literal (String.ofList text) (.datatype (.full datatype)))
  | trueWord : Form "true".toList (.literal "true" (.datatype (.full xsdBoolean)))
  | falseWord : Form "false".toList (.literal "false" (.datatype (.full xsdBoolean)))

/-- White space around a form. -/
def spaces : List Char := [' ', '\t', '\r', '\n']

def IsSpaces (cs : List Char) : Prop := ∀ c ∈ cs, c ∈ spaces

/-- **A text of the grammar**: a form with white space before and behind it. -/
structure Layout (input before text behind : List Char) (reading : Reading) : Prop where
  input_eq : input = before ++ text ++ behind
  before : IsSpaces before
  form : Form text reading
  behind : IsSpaces behind

/-! ### What the forms begin with -/

theorem isSpace_iff {c : Char} : isSpace c = true ↔ c ∈ spaces := by
  simp [isSpace, spaces, or_assoc]

variable {cs text body carried rest after m e : List Char} {c quote : Char} {n : Name}
  {reading : Reading} {suffix : Suffix} {hasPoint : Bool} {datatype : String}

theorem quotedLiteral?_eq_none (hdouble : c ≠ '"') (hsingle : c ≠ '\'') (rest : List Char) :
    quotedLiteral? (c :: rest) = none := by
  rw [quotedLiteral?, quoted?, if_neg (not_or.2 ⟨hdouble, hsingle⟩)]

theorem fullIri?_eq_none (h : c ≠ '<') (rest : List Char) : fullIri? (c :: rest) = none := by
  rw [fullIri?]
  rintro more heq
  exact h (List.cons.inj heq).1

theorem labelledName?_eq_none (hletter : isLetter c = false) (hcolon : c ≠ ':') (rest : List Char) :
    labelledName? (c :: rest) = none := by
  have hlabel : namespaceLabel (c :: rest) = [] := by
    rw [namespaceLabel, if_neg (by simp [hletter])]
  rw [labelledName?, hlabel, List.length_nil, List.drop_zero]
  split
  · rename_i more heq
    exact absurd (List.cons.inj heq).1 hcolon
  · rfl

theorem blank?_eq_none (h : c ≠ '_') (rest : List Char) : blank? (c :: rest) = none := by
  rw [blank?]
  rintro more heq
  exact h (List.cons.inj heq).1

/-- The characters that a number may begin with. -/
def numberHeads : List Char := "+-.0123456789".toList

theorem mem_numberHeads_of_isDigit (h : c.isDigit = true) : c ∈ numberHeads := by
  have hall := Text.forall_ascii (p := fun c => !c.isDigit || numberHeads.contains c) (by decide)
    (Text.lt_of_isAlphanum (Text.isAlphanum_of_isDigit h))
  simpa [h] using hall

theorem Mantissa.head (h : Mantissa m hasPoint) : ∃ c more, m = c :: more ∧
    (c.isDigit = true ∨ c = '.') := by
  cases h with
  | whole hne hdigits =>
    obtain ⟨c, more, rfl⟩ := List.exists_cons_of_ne_nil hne
    exact ⟨c, more, rfl, .inl (hdigits c List.mem_cons_self)⟩
  | pointed hne hdigits _ =>
    obtain ⟨c, more, rfl⟩ := List.exists_cons_of_ne_nil hne
    exact ⟨c, _, rfl, .inl (hdigits c List.mem_cons_self)⟩
  | fraction hne hdigits => exact ⟨'.', _, rfl, .inr rfl⟩

theorem Exponent.ne_nil (h : Exponent e) : e ≠ [] := by
  rintro rfl
  cases h

theorem NumberText.exists_parts (h : NumberText text datatype) : ∃ s m e hasPoint,
    text = s ++ m ++ e ∧ IsSign s ∧ Mantissa m hasPoint ∧ (e = [] ∨ Exponent e) := by
  cases h with
  | @integer s m hs hm => exact ⟨s, m, [], _, by rw [List.append_nil], hs, hm, .inl rfl⟩
  | @decimal s m hs hm => exact ⟨s, m, [], _, by rw [List.append_nil], hs, hm, .inl rfl⟩
  | @double s m e _ hs hm he => exact ⟨s, m, e, _, rfl, hs, hm, .inr he⟩

theorem NumberText.head (h : NumberText text datatype) : ∃ c more, text = c :: more ∧
    c ∈ numberHeads := by
  obtain ⟨s, m, e, _, rfl, hs, hm, -⟩ := h.exists_parts
  rcases hs with rfl | rfl | rfl
  · obtain ⟨c, more, rfl, hc⟩ := hm.head
    refine ⟨c, more ++ e, rfl, ?_⟩
    rcases hc with hdigit | rfl
    · exact mem_numberHeads_of_isDigit hdigit
    · decide
  · exact ⟨'+', m ++ e, rfl, by decide⟩
  · exact ⟨'-', m ++ e, rfl, by decide⟩

/-! ### A form is taken to its end -/

/-- The text is at its end or goes on with white space. -/
def Closes (rest : List Char) : Prop := ∀ c ∈ rest.head?, c ∈ spaces

theorem IsSpaces.closes (h : IsSpaces rest) : Closes rest := fun c hc =>
  h c (List.mem_of_mem_head? hc)

theorem Closes.head?_eq_false {p : Char → Bool} (hrest : Closes rest)
    (hp : (spaces.all fun c => !p c) = true) : ∀ c ∈ rest.head?, p c = false :=
  Token.head?_eq_false hrest hp

theorem namespaceLabel_append {label : List Char} (hlabel : IsNamespaceLabel label)
    (hrest : ∀ c ∈ rest.head?, isNamespaceChar c = false) :
    namespaceLabel (label ++ rest) = label := by
  cases label with
  | nil =>
    cases rest with
    | nil => rfl
    | cons c rest =>
      have hletter : ¬ isLetter c = true := fun hletter =>
        Bool.eq_false_iff.1 (hrest c rfl)
          (by simp [isNamespaceChar, Text.isAlphanum_of_isAlpha hletter])
      rw [List.nil_append, namespaceLabel, if_neg hletter]
  | cons c label =>
    rw [List.cons_append, namespaceLabel, if_pos hlabel.1, Token.takeWhile_run hlabel.2 hrest]

theorem labelledName?_append {label more : List Char} (hlabel : IsNamespaceLabel label)
    (hmore : ∀ c ∈ more, isRestChar c = true) (hrest : ∀ c ∈ rest.head?, isRestChar c = false) :
    labelledName? (label ++ ':' :: more ++ rest) =
      some (.labelled (String.ofList label) (String.ofList more), rest) := by
  have hcolon : ∀ c ∈ (':' :: (more ++ rest)).head?, isNamespaceChar c = false := by
    rintro c hc
    cases hc
    decide
  rw [List.append_assoc, List.cons_append, labelledName?, namespaceLabel_append hlabel hcolon,
    List.drop_left]
  simp only [Token.takeWhile_run hmore hrest, Token.dropWhile_run hmore hrest]

theorem NameText.name?_append (h : NameText text n) (hrest : Closes rest) :
    name? (text ++ rest) = some (n, rest) := by
  cases h with
  | @full iri hchars =>
    have hiri : isIri (String.ofList iri) = true := by
      rw [isIri, String.toList_ofList, List.all_eq_true]
      exact hchars
    have hread := fullIri?_append hiri rest
    rw [String.toList_ofList] at hread
    rw [name?, List.append_assoc, List.singleton_append, hread]
    rfl
  | @labelled label more hlabel hmore =>
    have hread := labelledName?_append hlabel hmore (hrest.head?_eq_false (by decide))
    have hfull : fullIri? (label ++ ':' :: more ++ rest) = none := by
      cases label with
      | nil => exact fullIri?_eq_none (by decide) _
      | cons c label =>
        refine fullIri?_eq_none ?_ _
        rintro rfl
        exact absurd hlabel.1 (by decide)
    rw [name?, hfull, hread]
    rfl

theorem QuotedText.quotedBody?_append (h : QuotedText quote text body) (hquote : quote ≠ '\\')
    (rest : List Char) : quotedBody? quote (text ++ quote :: rest) = some (body, rest) := by
  induction h with
  | nil => exact quotedBody?_quote quote rest
  | plain hne hback _ ih =>
    rw [List.cons_append, quotedBody?_of_ne hne hback, ih]
    rfl
  | escaped c _ ih =>
    rw [List.cons_append, List.cons_append, quotedBody?_backslash hquote, ih]
    rfl

theorem language?_eq_none (h : c ≠ '@') (rest : List Char) : language? (c :: rest) = none := by
  rw [language?]
  rintro more heq
  exact h (List.cons.inj heq).1

theorem datatype?_eq_none (h : c ≠ '^') (rest : List Char) : datatype? (c :: rest) = none := by
  rw [datatype?]
  rintro more heq
  exact h (List.cons.inj heq).1

theorem quotedLiteral?_append (hquote : quote = '"' ∨ quote = '\'')
    (hbody : QuotedText quote text body) (hsuffix : SuffixText carried suffix)
    (hrest : Closes rest) : quotedLiteral? (quote :: text ++ quote :: carried ++ rest) =
      some (.literal (String.ofList body) suffix, rest) := by
  have hquoted : quoted? (quote :: (text ++ quote :: (carried ++ rest))) =
      some (body, carried ++ rest) := by
    have hback : quote ≠ '\\' := by
      rcases hquote with rfl | rfl <;> decide
    rw [quoted?, if_pos hquote, hbody.quotedBody?_append hback]
  rw [List.append_assoc, List.cons_append, List.cons_append, quotedLiteral?, hquoted]
  cases hsuffix with
  | none =>
    cases rest with
    | nil => rfl
    | cons c rest =>
      have hc := hrest c rfl
      have hlanguage : language? (c :: rest) = none := language?_eq_none (by
        rintro rfl
        exact absurd hc (by decide)) rest
      have hdatatype : datatype? (c :: rest) = none := datatype?_eq_none (by
        rintro rfl
        exact absurd hc (by decide)) rest
      simp only [List.nil_append, hlanguage, hdatatype]
  | language hne hfirst hparts =>
    simp only [Token.language?_parts hne hfirst hparts (hrest.head?_eq_false (by decide))]
  | @datatype text n h =>
    have hlanguage : language? ('^' :: '^' :: text ++ rest) = none :=
      language?_eq_none (by decide) _
    have hdatatype : datatype? ('^' :: '^' :: text ++ rest) = some (n, rest) := by
      rw [List.cons_append, List.cons_append, datatype?, h.name?_append hrest]
    simp only [hlanguage, hdatatype]

/-! ### Numbers -/

theorem sign_append {s : List Char} (hs : IsSign s)
    (hrest : ∀ c ∈ rest.head?, ¬ (c = '+' ∨ c = '-')) : sign (s ++ rest) = (s, rest) := by
  rcases hs with rfl | rfl | rfl
  · cases rest with
    | nil => rfl
    | cons c rest => rw [List.nil_append, sign, if_neg (hrest c rfl)]
  · rfl
  · rfl

theorem Mantissa.mantissa?_append (h : Mantissa m hasPoint)
    (hrest : ∀ c ∈ rest.head?, (c.isDigit || c = '.') = false) :
    mantissa? (m ++ rest) = some (m, rest) := by
  have hdigit : ∀ c ∈ rest.head?, c.isDigit = false := fun c hc =>
    (Bool.or_eq_false_iff.1 (hrest c hc)).1
  have hpoint : ∀ more : List Char, ∀ c ∈ ('.' :: more).head?, c.isDigit = false := by
    rintro more c hc
    cases hc
    decide
  cases h with
  | @whole digits hne hdigits =>
    rw [mantissa?.eq_def, Token.takeWhile_run hdigits hdigit, Token.dropWhile_run hdigits hdigit]
    split
    · exact absurd rfl hne
    · exact absurd rfl hne
    · exact absurd (hrest '.' rfl) (by decide)
    · rfl
  | @pointed digits fraction hne hdigits hfraction =>
    rw [List.append_assoc, List.cons_append, mantissa?.eq_def,
      Token.takeWhile_run hdigits (hpoint _), Token.dropWhile_run hdigits (hpoint _)]
    split
    · exact absurd rfl hne
    · exact absurd rfl hne
    · rename_i heq
      obtain rfl := (List.cons.inj heq).2
      rw [Token.takeWhile_run hfraction hdigit, Token.dropWhile_run hfraction hdigit]
    · rename_i hnone _
      exact absurd rfl (hnone _)
  | @fraction digits hne hdigits =>
    rw [List.cons_append, mantissa?.eq_def, List.takeWhile_cons_of_neg (by decide),
      List.dropWhile_cons_of_neg (by decide)]
    split
    · rename_i heq
      obtain rfl := (List.cons.inj heq).2
      rw [Token.takeWhile_run hdigits hdigit, Token.dropWhile_run hdigits hdigit]
      split
      · exact absurd rfl hne
      · rfl
    · rename_i hnone
      exact absurd rfl (hnone _)
    · rename_i hwhole
      exact absurd rfl hwhole
    · rename_i hwhole _ _
      exact absurd rfl hwhole

theorem exponent?_append (he : e = [] ∨ Exponent e)
    (hrest : ∀ c ∈ rest.head?, (c.isDigit || c = 'e' || c = 'E') = false) :
    exponent? (e ++ rest) = some (e, rest) := by
  rcases he with rfl | he
  · cases rest with
    | nil => rfl
    | cons c rest =>
      have hc : ¬ (c = 'e' ∨ c = 'E') := by
        have := hrest c rfl
        simp only [Bool.or_eq_false_iff, decide_eq_false_iff_not] at this
        exact not_or.2 ⟨this.1.2, this.2⟩
      rw [List.nil_append, exponent?, if_neg hc]
  · cases he with
    | @intro c s digits hc hs hne hdigits =>
      have hdigit : ∀ c ∈ rest.head?, c.isDigit = false := fun c hc =>
        (Bool.or_eq_false_iff.1 (Bool.or_eq_false_iff.1 (hrest c hc)).1).1
      obtain ⟨d, digits, rfl⟩ := List.exists_cons_of_ne_nil hne
      have hsign : sign (s ++ (d :: digits ++ rest)) = (s, d :: digits ++ rest) := by
        refine sign_append hs ?_
        rintro c hc (rfl | rfl)
        · cases hc
          exact absurd (hdigits '+' List.mem_cons_self) (by decide)
        · cases hc
          exact absurd (hdigits '-' List.mem_cons_self) (by decide)
      rw [List.append_assoc, List.cons_append, exponent?, if_pos hc, hsign]
      simp only [Token.takeWhile_run hdigits hdigit, Token.dropWhile_run hdigits hdigit]

theorem IsSign.mem {s : List Char} (hs : IsSign s) (hc : c ∈ s) : c = '+' ∨ c = '-' := by
  rcases hs with rfl | rfl | rfl
  · cases hc
  · exact .inl (List.mem_singleton.1 hc)
  · exact .inr (List.mem_singleton.1 hc)

theorem Mantissa.mem (h : Mantissa m hasPoint) (hc : c ∈ m) : c.isDigit = true ∨ c = '.' := by
  cases h with
  | whole _ hdigits => exact .inl (hdigits c hc)
  | pointed _ hdigits hfraction =>
    rcases List.mem_append.1 hc with hc | hc
    · exact .inl (hdigits c hc)
    · rcases List.mem_cons.1 hc with rfl | hc
      · exact .inr rfl
      · exact .inl (hfraction c hc)
  | fraction _ hdigits =>
    rcases List.mem_cons.1 hc with rfl | hc
    · exact .inr rfl
    · exact .inl (hdigits c hc)

theorem Mantissa.point_mem_iff (h : Mantissa m hasPoint) : '.' ∈ m ↔ hasPoint = true := by
  cases h with
  | whole _ hdigits =>
    refine iff_of_false (fun hmem => ?_) (by decide)
    exact absurd (hdigits '.' hmem) (by decide)
  | pointed => simp
  | fraction => simp

theorem exponentLetter_not_mem {s : List Char} (hs : IsSign s) (hm : Mantissa m hasPoint)
    (hc : c = 'e' ∨ c = 'E') : c ∉ s ++ m := by
  intro hmem
  rcases List.mem_append.1 hmem with hmem | hmem
  · rcases hc with rfl | rfl <;> exact absurd (hs.mem hmem) (by decide)
  · rcases hc with rfl | rfl <;> exact absurd (hm.mem hmem) (by decide)

/-- **The datatype of a number** is told by its exponent and by the point of its mantissa. -/
theorem numberDatatype_eq {s : List Char} (hs : IsSign s) (hm : Mantissa m hasPoint)
    (he : e = [] ∨ Exponent e) : numberDatatype (s ++ m ++ e) =
      if e ≠ [] then xsdDouble else if hasPoint then xsdDecimal else xsdInteger := by
  rcases he with rfl | he
  · have hlower : (s ++ m).contains 'e' = false := by
      simpa using exponentLetter_not_mem hs hm (.inl rfl)
    have hupper : (s ++ m).contains 'E' = false := by
      simpa using exponentLetter_not_mem hs hm (.inr rfl)
    have hpoint : (s ++ m).contains '.' = hasPoint := by
      have hsign : '.' ∉ s := fun hmem => absurd (hs.mem hmem) (by decide)
      rw [Bool.eq_iff_iff, List.contains_iff_mem, List.mem_append, hm.point_mem_iff,
        or_iff_right hsign]
    rw [List.append_nil, numberDatatype, hlower, hupper, hpoint]
    rfl
  · cases he with
    | @intro c t digits hc =>
      have hmem : (s ++ m ++ (c :: t ++ digits)).contains c = true := by simp
      have hany : ((s ++ m ++ (c :: t ++ digits)).contains 'e' ||
          (s ++ m ++ (c :: t ++ digits)).contains 'E') = true := by
        rcases hc with rfl | rfl
        · rw [hmem, Bool.true_or]
        · rw [hmem, Bool.or_true]
      rw [numberDatatype, if_pos hany, if_pos (by simp)]

theorem number?_append {s : List Char} (hs : IsSign s) (hm : Mantissa m hasPoint)
    (he : e = [] ∨ Exponent e) (hrest : Closes rest) : number? (s ++ m ++ e ++ rest) =
      some (.literal (String.ofList (s ++ m ++ e))
        (.datatype (.full (numberDatatype (s ++ m ++ e)))), rest) := by
  have hsign : sign (s ++ (m ++ (e ++ rest))) = (s, m ++ (e ++ rest)) := by
    refine sign_append hs ?_
    obtain ⟨d, more, rfl, hd⟩ := hm.head
    rintro c hc (rfl | rfl) <;> cases hc <;> rcases hd with hd | hd <;> exact absurd hd (by decide)
  have hmantissa : mantissa? (m ++ (e ++ rest)) = some (m, e ++ rest) := by
    refine hm.mantissa?_append ?_
    rcases he with rfl | ⟨hc, -, -, -⟩
    · exact hrest.head?_eq_false (by decide)
    · rintro d hd
      cases hd
      rcases hc with rfl | rfl <;> decide
  have hexponent : exponent? (e ++ rest) = some (e, rest) :=
    exponent?_append he (hrest.head?_eq_false (by decide))
  rw [List.append_assoc, List.append_assoc, number?, hsign]
  simp only [hmantissa, hexponent, Option.bind_eq_bind, Option.bind_some]

theorem NumberText.number?_append (h : NumberText text datatype) (hrest : Closes rest) :
    number? (text ++ rest) =
      some (.literal (String.ofList text) (.datatype (.full datatype)), rest) := by
  cases h with
  | @integer s m hs hm =>
    have hread := Compact.number?_append hs hm (.inl rfl) hrest
    rwa [numberDatatype_eq hs hm (.inl rfl), List.append_nil] at hread
  | @decimal s m hs hm =>
    have hread := Compact.number?_append hs hm (.inl rfl) hrest
    rwa [numberDatatype_eq hs hm (.inl rfl), List.append_nil] at hread
  | @double s m e _ hs hm he =>
    have hread := Compact.number?_append hs hm (.inr he) hrest
    rwa [numberDatatype_eq hs hm (.inr he), if_pos he.ne_nil] at hread

/-! ### The readers before that of a form leave it alone -/

theorem name?_word_eq_none {word : List Char} (hne : word ≠ [])
    (hword : ∀ c ∈ word, isLetter c = true) (hrest : Closes rest) : name? (word ++ rest) = none := by
  have hlabel : IsNamespaceLabel word := by
    cases word with
    | nil => trivial
    | cons c word =>
      refine ⟨hword c List.mem_cons_self, fun d hd => ?_⟩
      simp [isNamespaceChar, Text.isAlphanum_of_isAlpha (hword d (List.mem_cons_of_mem _ hd))]
  have hlabelled : labelledName? (word ++ rest) = none := by
    rw [labelledName?, namespaceLabel_append hlabel (hrest.head?_eq_false (by decide)),
      List.drop_left]
    split
    · exact absurd (hrest ':' rfl) (by decide)
    · rfl
  obtain ⟨c, word, rfl⟩ := List.exists_cons_of_ne_nil hne
  have hfull : fullIri? (c :: word ++ rest) = none := by
    refine fullIri?_eq_none ?_ _
    rintro rfl
    exact absurd (hword '<' List.mem_cons_self) (by decide)
  rw [name?, hfull, hlabelled]
  rfl

theorem NameText.form?_append (h : NameText text n) (hrest : Closes rest) :
    form? (text ++ rest) = some (.name n, rest) := by
  have hquoted : quotedLiteral? (text ++ rest) = none := by
    cases h with
    | full => exact quotedLiteral?_eq_none (by decide) (by decide) _
    | @labelled label more hlabel =>
      cases label with
      | nil => exact quotedLiteral?_eq_none (by decide) (by decide) _
      | cons c label =>
        have hletter := hlabel.1
        refine quotedLiteral?_eq_none ?_ ?_ _ <;> rintro rfl <;> exact absurd hletter (by decide)
  rw [form?, hquoted, h.name?_append hrest]
  rfl

theorem form?_blank_append {label : List Char} (hne : label ≠ [])
    (hchars : ∀ c ∈ label, isLabelChar c = true) (hrest : Closes rest) :
    form? ('_' :: ':' :: label ++ rest) = some (.blank (String.ofList label), rest) := by
  have hstop : ∀ c ∈ rest.head?, isLabelChar c = false := hrest.head?_eq_false (by decide)
  have hblank : blank? ('_' :: ':' :: label ++ rest) = some (String.ofList label, rest) := by
    rw [List.cons_append, List.cons_append, blank?, Token.takeWhile_run hchars hstop,
      Token.dropWhile_run hchars hstop]
    split
    · exact absurd rfl hne
    · rfl
  have hquoted : quotedLiteral? ('_' :: ':' :: label ++ rest) = none := rfl
  have hname : name? ('_' :: ':' :: label ++ rest) = none := rfl
  rw [form?, hquoted, hname, hblank]
  rfl

theorem NumberText.form?_append (h : NumberText text datatype) (hrest : Closes rest) :
    form? (text ++ rest) =
      some (.literal (String.ofList text) (.datatype (.full datatype)), rest) := by
  have hnumber := h.number?_append hrest
  obtain ⟨c, more, rfl, hc⟩ := h.head
  have hother : ∀ c ∈ numberHeads, c ≠ '"' ∧ c ≠ '\'' ∧ c ≠ '<' ∧ c ≠ ':' ∧ c ≠ '_' ∧
      isLetter c = false := by decide
  obtain ⟨hdouble, hsingle, hbracket, hcolon, hunder, hletter⟩ := hother c hc
  have hname : name? (c :: (more ++ rest)) = none := by
    rw [name?, fullIri?_eq_none hbracket, labelledName?_eq_none hletter hcolon]
    rfl
  rw [List.cons_append] at hnumber ⊢
  rw [form?, quotedLiteral?_eq_none hdouble hsingle, hname, blank?_eq_none hunder, hnumber]
  rfl

/-- **A form before white space is taken to its end**, whatever readers are tried first. -/
theorem Form.form?_append (h : Form text reading) (hrest : Closes rest) :
    form? (text ++ rest) = some (reading, rest) := by
  cases h with
  | name h => exact h.form?_append hrest
  | blank hne hchars => exact form?_blank_append hne hchars hrest
  | quoted hquote hbody hsuffix =>
    rw [form?, quotedLiteral?_append hquote hbody hsuffix hrest]
    rfl
  | number h => exact h.form?_append hrest
  | trueWord =>
    have hname : name? ("true".toList ++ rest) = none :=
      name?_word_eq_none (by decide) (by decide) hrest
    rw [form?, hname]
    rfl
  | falseWord =>
    have hname : name? ("false".toList ++ rest) = none :=
      name?_word_eq_none (by decide) (by decide) hrest
    rw [form?, hname]
    rfl

end SparqlViews.Compact
