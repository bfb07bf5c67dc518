import SparqlViews.Term.Basic
import SparqlViews.Term.Prefixes

/-! # Terms read from compact text

The forms of a term in documents and request values: `<iri>`, `label:rest`, `_:node`, a quoted text
with an optional `@language` or `^^datatype`, a number, `true` and `false`, with white space around.

* `Reading`: what a text says, before its labels are looked up.
* `read?`: the reading of a text, by one reader for each form, tried in turn.
* `parseTerm`: the term of a text. Only here are labels looked up and IRIs checked.
-/

namespace SparqlViews

namespace Compact

/-- An IRI as it is written. -/
inductive Name where
  | full (iri : String)
  | labelled (label rest : String)
  deriving DecidableEq, Repr

/-- What a quoted text carries beside its characters, as it is written. -/
inductive Suffix where
  | none
  | language (tag : String)
  | datatype (name : Name)
  deriving DecidableEq, Repr

/-- **What a text says**, before labels are looked up. -/
inductive Reading where
  | name (n : Name)
  | blank (label : String)
  | literal (lexical : String) (suffix : Suffix)
  deriving DecidableEq, Repr

/-! ### Characters -/

/-- A Latin letter of either case. -/
def isLetter (c : Char) : Bool := c.isAlpha

/-- A character of a namespace label after its first. -/
def isNamespaceChar (c : Char) : Bool := c.isAlphanum || c = '_' || c = '-'

/-- A character after the colon of a labelled name. -/
def isRestChar (c : Char) : Bool := Text.isAlphanumeric c || "_-.%/#".toList.contains c

/-- White space around a term. -/
def isSpace (c : Char) : Bool := c = ' ' || c = '\t' || c = '\r' || c = '\n'

/-! ### One reader for each form -/

/-- An IRI between angle brackets. -/
def fullIri? : List Char → Option (Name × List Char)
  | '<' :: rest =>
    match rest.dropWhile isIriChar with
    | '>' :: after => some (.full (String.ofList (rest.takeWhile isIriChar)), after)
    | _ => none
  | _ => none

/-- The namespace label at the front; it may be empty. -/
def namespaceLabel : List Char → List Char
  | c :: rest => if isLetter c then c :: rest.takeWhile isNamespaceChar else []
  | [] => []

/-- A name with a namespace label. -/
def labelledName? (cs : List Char) : Option (Name × List Char) :=
  match cs.drop (namespaceLabel cs).length with
  | ':' :: rest =>
    some (.labelled (String.ofList (namespaceLabel cs)) (String.ofList (rest.takeWhile isRestChar)),
      rest.dropWhile isRestChar)
  | _ => none

def name? (cs : List Char) : Option (Name × List Char) :=
  (fullIri? cs).or (labelledName? cs)

/-- A blank node; its label has a character. -/
def blank? : List Char → Option (String × List Char)
  | '_' :: ':' :: rest =>
    match rest.takeWhile isLabelChar with
    | [] => none
    | label => some (String.ofList label, rest.dropWhile isLabelChar)
  | _ => none

/-- The character that a backslash before `c` stands for. -/
def unescapeChar (c : Char) : Char :=
  if c = 'n' then '\n'
  else if c = 'r' then '\r'
  else if c = 't' then '\t'
  else if c = '0' then '\x00'
  else c

/-- The text up to the closing quote, with its escapes decoded, and what follows the quote. -/
def quotedBody? (quote : Char) : List Char → Option (List Char × List Char)
  | [] => none
  | c :: rest =>
    if c = quote then some ([], rest)
    else if c = '\\' then
      match rest with
      | [] => none
      | d :: rest =>
        (quotedBody? quote rest).map fun (body, after) => (unescapeChar d :: body, after)
    else (quotedBody? quote rest).map fun (body, after) => (c :: body, after)

/-- A text between double or single quotes. -/
def quoted? : List Char → Option (List Char × List Char)
  | c :: rest => if c = '"' ∨ c = '\'' then quotedBody? c rest else none
  | [] => none

/-- The parts of a language tag after the first: each a hyphen and letters or digits. `inside` says
that the last character read belongs to such a part. -/
def tagParts (inside : Bool) : List Char → List Char × List Char
  | [] => ([], [])
  | c :: rest =>
    if (inside && c.isAlphanum) || (c = '-' && rest.head?.any Char.isAlphanum) then
      let (parts, after) := tagParts true rest
      (c :: parts, after)
    else ([], c :: rest)

/-- A language tag after its mark. -/
def language? : List Char → Option (String × List Char)
  | '@' :: rest =>
    match rest.takeWhile isLetter with
    | [] => none
    | first =>
      let (parts, after) := tagParts false (rest.dropWhile isLetter)
      some (String.ofList (first ++ parts), after)
  | _ => none

/-- A datatype after its mark. -/
def datatype? : List Char → Option (Name × List Char)
  | '^' :: '^' :: rest => name? rest
  | _ => none

/-- A quoted text with what it carries. -/
def quotedLiteral? (cs : List Char) : Option (Reading × List Char) :=
  match quoted? cs with
  | none => none
  | some (body, rest) =>
    let lexical := String.ofList body
    match language? rest with
    | some (tag, after) => some (.literal lexical (.language tag), after)
    | none =>
      match datatype? rest with
      | some (name, after) => some (.literal lexical (.datatype name), after)
      | none => some (.literal lexical .none, rest)

/-- An optional sign at the front. -/
def sign : List Char → List Char × List Char
  | c :: rest => if c = '+' ∨ c = '-' then ([c], rest) else ([], c :: rest)
  | [] => ([], [])

/-- Digits with an optional point; a digit stands on one side of it at least. -/
def mantissa? (cs : List Char) : Option (List Char × List Char) :=
  match cs.takeWhile Char.isDigit, cs.dropWhile Char.isDigit with
  | [], '.' :: rest =>
    match rest.takeWhile Char.isDigit with
    | [] => none
    | fraction => some ('.' :: fraction, rest.dropWhile Char.isDigit)
  | [], _ => none
  | whole, '.' :: rest =>
    some (whole ++ '.' :: rest.takeWhile Char.isDigit, rest.dropWhile Char.isDigit)
  | whole, rest => some (whole, rest)

/-- An optional exponent; once its letter is there, it has a digit. -/
def exponent? : List Char → Option (List Char × List Char)
  | c :: rest =>
    if c = 'e' ∨ c = 'E' then
      let (s, rest) := sign rest
      match rest.takeWhile Char.isDigit with
      | [] => none
      | digits => some (c :: s ++ digits, rest.dropWhile Char.isDigit)
    else some ([], c :: rest)
  | [] => some ([], [])

/-- The datatype of a number, by how it is written. -/
def numberDatatype (text : List Char) : String :=
  if text.contains 'e' || text.contains 'E' then xsdDouble
  else if text.contains '.' then xsdDecimal
  else xsdInteger

def number? (cs : List Char) : Option (Reading × List Char) := do
  let (s, rest) := sign cs
  let (m, rest) ← mantissa? rest
  let (e, rest) ← exponent? rest
  let text := s ++ m ++ e
  some (.literal (String.ofList text) (.datatype (.full (numberDatatype text))), rest)

def boolean? : List Char → Option (Reading × List Char)
  | 't' :: 'r' :: 'u' :: 'e' :: rest => some (.literal "true" (.datatype (.full xsdBoolean)), rest)
  | 'f' :: 'a' :: 'l' :: 's' :: 'e' :: rest =>
    some (.literal "false" (.datatype (.full xsdBoolean)), rest)
  | _ => none

/-- The first form that the text begins with. -/
def form? (cs : List Char) : Option (Reading × List Char) :=
  (quotedLiteral? cs)
    |>.or ((name? cs).map fun (n, rest) => (.name n, rest))
    |>.or ((blank? cs).map fun (label, rest) => (.blank label, rest))
    |>.or (number? cs)
    |>.or (boolean? cs)

/-- **The reading of a text**: one form with white space around it. -/
def read? (cs : List Char) : Option Reading :=
  match form? (cs.dropWhile isSpace) with
  | some (reading, rest) => if (rest.dropWhile isSpace).isEmpty then some reading else none
  | none => none

/-! ### From reading to term -/

/-- The IRI of a name. -/
def Name.resolve (p : Prefixes) (input : String) : Name → Except TermError String
  | .full iri => .ok iri
  | .labelled label rest =>
    match p.get? label with
    | some namespaceIri => .ok (namespaceIri ++ rest)
    | none => .error (.unknownLabel label input)

/-- The term of a reading. -/
def Reading.resolve (p : Prefixes) (input : String) : Reading → Except TermError Term
  | .name n => do Term.iri? (← n.resolve p input)
  | .blank label => .ok (.blank label)
  | .literal lexical .none => .ok (.plain lexical)
  | .literal lexical (.language tag) => .ok (.ofLanguage lexical tag)
  | .literal lexical (.datatype n) => do
    let iri ← n.resolve p input
    if isIri iri then .ok (.ofDatatype lexical iri) else .error (.invalidIri iri)

end Compact

/-- **The term of a compact text.** -/
def parseTerm (p : Prefixes) (input : String) : Except TermError Term :=
  match Compact.read? input.toList with
  | some reading => reading.resolve p input
  | none => .error (.malformed input)

end SparqlViews
