import SparqlViews.Proofs.Term.WellFormed
import SparqlViews.Term.Printer

/-! # Tokens of terms in a query

A reader of queries, which knows nothing of how terms are written, takes one token for a term off the
front of a text: an IRI between angle brackets, a quoted text with a language or a datatype, or a blank
node. What a well-formed term is written as is exactly one such token, whatever follows it behind a
delimiter (`read?_token`). IRIs, quoted texts and languages are those of the grammar of queries. The
labels of blank nodes are those of compact texts, a few of which, such as one that starts with a
hyphen, that grammar does not have.

* `quoted?_escape`: an escaped text ends at the quote behind it.
* `language?_append`, `iri?_append`: what a literal carries is read to its end.
-/

namespace SparqlViews.Token

/-! ### The reader -/

/-- A character between the angle brackets of an IRI, by the grammar of queries. -/
def isIriRefChar (c : Char) : Bool := 0x20 < c.toNat && !iriDelimiters.contains c

/-- An IRI between angle brackets. -/
def iri? : List Char → Option (List Char × List Char)
  | '<' :: rest =>
    match rest.dropWhile isIriRefChar with
    | '>' :: after => some ('<' :: rest.takeWhile isIriRefChar ++ ['>'], after)
    | _ => none
  | _ => none

/-- The characters that may follow a backslash between quotes. -/
def escapable : List Char := "tbnrf\\\"'".toList

/-- The text between double quotes after the first of them, with the closing one. It stands on one
line, and every backslash in it belongs to an escape. -/
def quoted? : List Char → Option (List Char × List Char)
  | [] => none
  | '"' :: rest => some (['"'], rest)
  | '\\' :: c :: rest =>
    if escapable.contains c then
      (quoted? rest).map fun (body, after) => ('\\' :: c :: body, after)
    else none
  | c :: rest =>
    if c = '\\' ∨ c = '\n' ∨ c = '\r' then none
    else (quoted? rest).map fun (body, after) => (c :: body, after)

/-- What a quoted text carries. -/
def suffix? : List Char → Option (List Char × List Char)
  | '@' :: rest =>
    (Compact.language? ('@' :: rest)).map fun (tag, after) => ('@' :: tag.toList, after)
  | '^' :: '^' :: rest => (iri? rest).map fun (iri, after) => ('^' :: '^' :: iri, after)
  | cs => some ([], cs)

/-- **The token of a term at the front of a text**, the longest there is, and what follows it. -/
def read? : List Char → Option (List Char × List Char)
  | '"' :: rest => do
    let (body, rest) ← quoted? rest
    let (suffix, rest) ← suffix? rest
    some ('"' :: body ++ suffix, rest)
  | '_' :: ':' :: rest =>
    (Compact.blank? ('_' :: ':' :: rest)).map fun (label, after) => ('_' :: ':' :: label.toList, after)
  | cs => iri? cs

/-- The characters behind a term in a condition. -/
def delimiters : List Char := [' ', ',', ')']

/-- The text is at its end or goes on with a delimiter. -/
def Ends (rest : List Char) : Prop := ∀ c ∈ rest.head?, c ∈ delimiters

/-! ### Runs of characters -/

section Runs

variable {p : Char → Bool} {run rest : List Char}

theorem takeWhile_run (hrun : ∀ c ∈ run, p c = true) (hrest : ∀ c ∈ rest.head?, p c = false) :
    (run ++ rest).takeWhile p = run := by
  rw [List.takeWhile_append_of_pos hrun]
  cases rest with
  | nil => rw [List.takeWhile_nil, List.append_nil]
  | cons c rest => rw [List.takeWhile_cons_of_neg (by simp [hrest c rfl]), List.append_nil]

theorem dropWhile_run (hrun : ∀ c ∈ run, p c = true) (hrest : ∀ c ∈ rest.head?, p c = false) :
    (run ++ rest).dropWhile p = rest := by
  rw [List.dropWhile_append_of_pos hrun]
  cases rest with
  | nil => rfl
  | cons c rest => rw [List.dropWhile_cons_of_neg (by simp [hrest c rfl])]

theorem head?_eq_false {stops : List Char} (hrest : ∀ c ∈ rest.head?, c ∈ stops)
    (hp : (stops.all fun c => !p c) = true) : ∀ c ∈ rest.head?, p c = false := by
  intro c hc
  simpa using List.all_eq_true.1 hp c (hrest c hc)

theorem Ends.head?_eq_false (hrest : Ends rest) (hp : (delimiters.all fun c => !p c) = true) :
    ∀ c ∈ rest.head?, p c = false :=
  Token.head?_eq_false hrest hp

end Runs

variable {rest : List Char}

/-! ### IRIs -/

theorem isIriRefChar_of_isIriChar {c : Char} (h : isIriChar c = true) : isIriRefChar c = true := by
  simp only [isIriChar, Bool.not_eq_true', Bool.or_eq_false_iff] at h
  obtain ⟨⟨hblank, hcontrol⟩, hdelimiter⟩ := h
  simp only [Text.isBlank, Text.inRanges, List.any_cons, Bool.or_eq_false_iff, Bool.and_eq_false_iff,
    decide_eq_false_iff_not] at hblank
  simp only [Text.isControl, Text.inRanges, List.any_cons, Bool.or_eq_false_iff,
    Bool.and_eq_false_iff, decide_eq_false_iff_not] at hcontrol
  rw [isIriRefChar, hdelimiter, Bool.not_false, Bool.and_true, decide_eq_true_eq]
  omega

theorem iri?_append {s : String} (h : isIri s = true) (rest : List Char) :
    iri? ('<' :: s.toList ++ '>' :: rest) = some ('<' :: s.toList ++ ['>'], rest) := by
  have hchars : ∀ c ∈ s.toList, isIriRefChar c = true := fun c hc =>
    isIriRefChar_of_isIriChar (List.all_eq_true.1 h c hc)
  have hclose : ∀ c ∈ ('>' :: rest).head?, isIriRefChar c = false := by
    rintro c hc
    cases hc
    decide
  rw [List.cons_append, iri?, dropWhile_run hchars hclose, takeWhile_run hchars hclose]
  rfl

/-! ### Quoted texts -/

/-- **An escaped text is one quoted text**, closed by the quote behind it. -/
theorem quoted?_escape (body rest : List Char) :
    quoted? (escape body ++ '"' :: rest) = some (escape body ++ ['"'], rest) := by
  induction body with
  | nil => rfl
  | cons c body ih =>
    have hpair : ∀ d, escapable.contains d = true →
        quoted? ('\\' :: d :: (escape body ++ '"' :: rest)) =
          some ('\\' :: d :: (escape body ++ ['"']), rest) := by
      intro d hd
      rw [quoted?, if_pos hd, ih]
      rfl
    rw [escape, List.flatMap_cons, ← escape, List.append_assoc, List.append_assoc]
    unfold escapeChar
    split_ifs with hback hquote hline hreturn htab
    · exact hpair '\\' (by decide)
    · exact hpair '"' (by decide)
    · exact hpair 'n' (by decide)
    · exact hpair 'r' (by decide)
    · exact hpair 't' (by decide)
    · -- any other character stands for itself
      have hplain : ¬ (c = '\\' ∨ c = '\n' ∨ c = '\r') := by simp [hback, hline, hreturn]
      rw [List.singleton_append, List.singleton_append, quoted?, if_neg hplain, ih]
      · rfl
      · exact fun heq => hquote heq
      · exact fun _ _ heq _ => hback heq

/-! ### Languages -/

theorem tagParts_part {here : List Char} (hhere : ∀ c ∈ here, c.isAlphanum = true)
    (tail : List Char) : Compact.tagParts true (here ++ tail) =
      (here ++ (Compact.tagParts true tail).1, (Compact.tagParts true tail).2) := by
  induction here with
  | nil => rfl
  | cons c here ih =>
    rw [List.cons_append, Compact.tagParts, if_pos (by simp [hhere c List.mem_cons_self]),
      ih fun d hd => hhere d (List.mem_cons_of_mem _ hd)]
    rfl

theorem tagParts_append {parts : List (List Char)} (hparts : ∀ p ∈ parts, Compact.IsPart p)
    (hrest : ∀ c ∈ rest.head?, (c.isAlphanum || c = '-') = false) (inside : Bool) :
    Compact.tagParts inside (parts.flatMap ('-' :: ·) ++ rest) =
      (parts.flatMap ('-' :: ·), rest) := by
  induction parts generalizing inside with
  | nil =>
    rw [List.flatMap_nil, List.nil_append]
    cases rest with
    | nil => rfl
    | cons c rest =>
      have hc := hrest c rfl
      rw [Bool.or_eq_false_iff, decide_eq_false_iff_not] at hc
      rw [Compact.tagParts, if_neg (by simp [hc.1, hc.2])]
  | cons part parts ih =>
    obtain ⟨hne, hchars⟩ := hparts part List.mem_cons_self
    obtain ⟨d, more, rfl⟩ := List.exists_cons_of_ne_nil hne
    have hnext : ((d :: more ++ (parts.flatMap ('-' :: ·) ++ rest)).head?.any
        Char.isAlphanum) = true := by
      simp [hchars d List.mem_cons_self]
    rw [List.flatMap_cons, List.cons_append, List.cons_append, List.append_assoc, Compact.tagParts,
      if_pos (by rw [hnext]; simp), tagParts_part hchars,
      ih fun p hp => hparts p (List.mem_cons_of_mem _ hp)]

/-- **A language tag is read to its end**: letters, and parts behind hyphens. -/
theorem language?_parts {first : List Char} {parts : List (List Char)} (hne : first ≠ [])
    (hfirst : ∀ c ∈ first, Compact.isLetter c = true) (hparts : ∀ p ∈ parts, Compact.IsPart p)
    (hrest : ∀ c ∈ rest.head?, (c.isAlphanum || c = '-') = false) :
    Compact.language? ('@' :: (first ++ parts.flatMap ('-' :: ·)) ++ rest) =
      some (String.ofList (first ++ parts.flatMap ('-' :: ·)), rest) := by
  have hstop : ∀ c ∈ (parts.flatMap ('-' :: ·) ++ rest).head?, Compact.isLetter c = false := by
    cases parts with
    | nil =>
      intro c hc
      have hword := (Bool.or_eq_false_iff.1 (hrest c hc)).1
      exact Bool.eq_false_iff.2 fun hletter =>
        Bool.eq_false_iff.1 hword (Text.isAlphanum_of_isAlpha hletter)
    | cons part parts =>
      rintro c hc
      cases hc
      decide
  rw [List.cons_append, List.append_assoc, Compact.language?, takeWhile_run hfirst hstop,
    dropWhile_run hfirst hstop, tagParts_append hparts hrest]
  cases first with
  | nil => exact absurd rfl hne
  | cons c first => rfl

theorem language?_append {tag : String} (h : isLanguageTag tag = true) (hrest : Ends rest) :
    Compact.language? ('@' :: tag.toList ++ rest) = some (tag, rest) := by
  unfold isLanguageTag at h
  split at h
  · cases h
  · rename_i first parts hfields
    simp only [Bool.and_eq_true, Bool.not_eq_true', List.isEmpty_eq_false_iff, List.all_eq_true] at h
    obtain ⟨⟨hne, hfirst⟩, hmore⟩ := h
    have htag := Text.eq_of_fields hfields
    have hletters : ∀ c ∈ first, Compact.isLetter c = true := fun c hc =>
      Text.isAlpha_of_isLower (hfirst c hc)
    have hparts : ∀ p ∈ parts, Compact.IsPart p := by
      intro p hp
      refine ⟨(hmore p hp).1, fun c hc => ?_⟩
      rcases Bool.or_eq_true_iff.1 ((hmore p hp).2 c hc) with hlower | hdigit
      · exact Text.isAlphanum_of_isAlpha (Text.isAlpha_of_isLower hlower)
      · exact Text.isAlphanum_of_isDigit hdigit
    have hread := language?_parts hne hletters hparts (hrest.head?_eq_false (by decide))
    rwa [← htag, String.ofList_toList] at hread

/-! ### Terms -/

theorem suffix?_of_ends (hrest : Ends rest) : suffix? rest = some ([], rest) := by
  cases rest with
  | nil => rfl
  | cons c rest =>
    have hc := hrest c rfl
    rw [suffix?]
    · rintro more heq
      cases heq
      exact absurd hc (by decide)
    · rintro more heq
      cases heq
      exact absurd hc (by decide)

theorem blank?_append {label : String} (hne : label.toList ≠ [])
    (h : label.toList.all isLabelChar = true) (hrest : Ends rest) :
    Compact.blank? ('_' :: ':' :: label.toList ++ rest) = some (label, rest) := by
  have hchars := List.all_eq_true.1 h
  have hstop : ∀ c ∈ rest.head?, isLabelChar c = false := hrest.head?_eq_false (by decide)
  rw [List.cons_append, List.cons_append, Compact.blank?, takeWhile_run hchars hstop,
    dropWhile_run hchars hstop]
  cases hlabel : label.toList with
  | nil => exact absurd hlabel hne
  | cons c more => simp [← hlabel]

theorem read?_quoted (lexical carried : List Char)
    (h : suffix? (carried ++ rest) = some (carried, rest)) :
    read? ('"' :: escape lexical ++ '"' :: carried ++ rest) =
      some ('"' :: escape lexical ++ '"' :: carried, rest) := by
  have hquoted := quoted?_escape lexical (carried ++ rest)
  rw [List.append_assoc, List.cons_append, List.cons_append, read?, hquoted]
  simp only [Option.bind_eq_bind, Option.bind_some, h, List.append_assoc, List.cons_append,
    List.nil_append]

/-- **What a well-formed term is written as is one token**, whatever follows it behind a
delimiter. -/
theorem read?_token {t : Term} (ht : t.WellFormed) (hrest : Ends rest) :
    read? (t.token ++ rest) = some (t.token, rest) := by
  cases t with
  | iri s =>
    have hread := iri?_append ht rest
    rw [Term.token, List.append_assoc]
    exact hread
  | blank label =>
    have hread := blank?_append ht.1 ht.2 hrest
    rw [Term.token, List.cons_append, List.cons_append, read?]
    rw [List.cons_append, List.cons_append] at hread
    rw [hread]
    rfl
  | literal lexical kind =>
    cases kind with
    | plain => exact read?_quoted lexical.toList [] (suffix?_of_ends hrest)
    | language tag =>
      refine read?_quoted lexical.toList ('@' :: tag.toList) ?_
      have hread := language?_append ht hrest
      rw [List.cons_append] at hread ⊢
      rw [suffix?, hread]
      rfl
    | datatype name =>
      refine read?_quoted lexical.toList ('^' :: '^' :: '<' :: name.toList ++ ['>']) ?_
      have hread := iri?_append ht.1 rest
      simp only [List.cons_append, List.append_assoc, List.nil_append] at hread ⊢
      rw [suffix?, hread]
      rfl

end SparqlViews.Token
