/-! # Short names and the variables made of them

A short name is a letter followed by letters, digits and underscores. A list of short names is
written as one variable: an underscore inside a name is doubled, and single underscores join the
names. A short name begins with a letter, so the joints can be found again from the left.

* `isShortName`: the short names.
* `encode`, `decode`: between lists of names and variables.
* `isInternal`, `sortVariable`: variables with a leading underscore, which no list of short names
  is written as, and which queries use for themselves.
-/

namespace SparqlViews.Naming

/-- A character of a short name after its first. -/
def isNameChar (c : Char) : Bool := c.isAlphanum || c = '_'

/-- **A short name**: `[A-Za-z][A-Za-z0-9_]*`. -/
def isShortName (s : String) : Bool :=
  match s.toList with
  | [] => false
  | c :: rest => c.isAlpha && rest.all isNameChar

/-- A name with its underscores doubled. -/
def double (name : List Char) : List Char :=
  name.flatMap fun c => if c = '_' then ['_', '_'] else [c]

/-- The names of a list, doubled and joined. -/
def encodeChars : List (List Char) → List Char
  | [] => []
  | [name] => double name
  | name :: rest => double name ++ '_' :: encodeChars rest

/-- A character put in front of the first name. -/
def pushFront (c : Char) : List (List Char) → List (List Char)
  | [] => [[c]]
  | name :: rest => (c :: name) :: rest

/-- The names of a variable, read from the left. -/
def decodeChars : List Char → List (List Char)
  | [] => [[]]
  | '_' :: '_' :: rest => pushFront '_' (decodeChars rest)
  | '_' :: rest => [] :: decodeChars rest
  | c :: rest => pushFront c (decodeChars rest)

/-- **The variable of a list of names.** -/
def encode (names : List String) : String := String.ofList (encodeChars (names.map String.toList))

/-- **The names that a variable is made of.** -/
def decode (name : String) : List String := (decodeChars name.toList).map String.ofList

/-- The variable that carries the value of one sort key out of an inner query. -/
def sortVariable (index : Nat) : String := "_sort" ++ toString index

/-- A variable that queries use for themselves. -/
def isInternal (name : String) : Bool := name.toList.head? == some '_'

end SparqlViews.Naming
