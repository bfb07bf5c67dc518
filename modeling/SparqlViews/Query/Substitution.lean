import SparqlViews.Table
import SparqlViews.Term.Printer

/-! # Substitution of bound variables

Constants take the place of variables in the text of a query. A variable is `?` or `$` with the
longest name that follows. What stands between quotes or angle brackets is left alone.

* `Mode`: what the scanner is inside of.
* `substitute`: the text with every bound variable replaced.
-/

namespace SparqlViews.Substitution

/-- The constants of variables. -/
abbrev Bindings := Table Term

/-- A character of a variable name. -/
def isNameChar (c : Char) : Bool := Text.isAlphanumeric c || c = '_'

/-- **What the scanner is inside of.** -/
inductive Mode where
  | code
  | quoted (quote : Char)
  /-- Inside quotes, just after a backslash. -/
  | escaped (quote : Char)
  | brackets
  /-- After `?` or `$` and some characters of a name. -/
  | name (sigil : Char) (soFar : List Char)
  deriving DecidableEq

/-- A variable token, replaced if it is bound. -/
def variableText (bindings : Bindings) (sigil : Char) (name : List Char) : List Char :=
  match name, bindings.get? (String.ofList name) with
  | _ :: _, some term => term.token
  | _, _ => sigil :: name

/-- A `<` opens brackets unless white space, `=` or the end of the text follows. -/
def opensBrackets (rest : List Char) : Bool :=
  rest.head?.any fun c => !Text.isBlank c && c ≠ '='

/-- What is written for a character of code at once, and where the scanner is after it. -/
def enter (c : Char) (rest : List Char) : List Char × Mode :=
  if c = '"' ∨ c = '\'' then ([c], .quoted c)
  else if c = '<' then ([c], if opensBrackets rest then .brackets else .code)
  else if c = '?' ∨ c = '$' then ([], .name c [])
  else ([c], .code)

/-- The text from where the scanner is, with bound variables replaced. -/
def scan (bindings : Bindings) (mode : Mode) : List Char → List Char
  | [] =>
    match mode with
    | .name sigil soFar => variableText bindings sigil soFar
    | _ => []
  | c :: rest =>
    match mode with
    | .code => (enter c rest).1 ++ scan bindings (enter c rest).2 rest
    | .quoted quote =>
      c :: scan bindings
        (if c = '\\' then .escaped quote else if c = quote then .code else .quoted quote) rest
    | .escaped quote => c :: scan bindings (.quoted quote) rest
    | .brackets =>
      c :: scan bindings (if c = '>' ∨ Text.isBlank c then .code else .brackets) rest
    | .name sigil soFar =>
      if isNameChar c then scan bindings (.name sigil (soFar ++ [c])) rest
      else
        variableText bindings sigil soFar ++
          ((enter c rest).1 ++ scan bindings (enter c rest).2 rest)

/-- **The text with every bound variable replaced.** -/
def substitute (bindings : Bindings) (text : List Char) : List Char := scan bindings .code text

/-- The text with the bound variables replaced from its first opening brace on. -/
def substituteBody (bindings : Bindings) (text : List Char) : List Char :=
  text.takeWhile (· ≠ '{') ++ substitute bindings (text.dropWhile (· ≠ '{'))

end SparqlViews.Substitution
