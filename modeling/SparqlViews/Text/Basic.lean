import SparqlViews.Text.Alphanumeric

/-! # Text as lists of characters

The classes of characters and the operations on text that the library shares. Text is handled as
`List Char`, so that a function on it is a recursion over its characters.

* `isBlank`, `isControl`: the white space and the control characters of Unicode.
* `trim`, `lines`, `fields`, `splitFirst?`: white space at the ends, lines, separated fields.
* `occursIn`, `replaceAll`: a pattern as a part of a text, and its replacement from the left.
-/

namespace SparqlViews.Text

/-! ### Classes of characters -/

/-- **White space**: the 25 characters with the Unicode property `White_Space`. -/
def isBlank (c : Char) : Bool :=
  inRanges [(0x9, 0xD), (0x20, 0x20), (0x85, 0x85), (0xA0, 0xA0), (0x1680, 0x1680),
    (0x2000, 0x200A), (0x2028, 0x2029), (0x202F, 0x202F), (0x205F, 0x205F), (0x3000, 0x3000)]
    c.toNat

/-- A control character, of the category `Cc`. -/
def isControl (c : Char) : Bool := inRanges [(0, 0x1F), (0x7F, 0x9F)] c.toNat

/-! ### Ends and lines -/

/-- The text without white space at its ends. -/
def trim (s : List Char) : List Char :=
  ((s.dropWhile isBlank).reverse.dropWhile isBlank).reverse

/-- The pieces of a text that each end after a line feed; the last piece may lack it. -/
def lineChunks : List Char → List (List Char)
  | [] => []
  | c :: rest =>
    if c = '\n' then [c] :: lineChunks rest
    else
      match lineChunks rest with
      | [] => [[c]]
      | chunk :: more => (c :: chunk) :: more

/-- A line without its line feed, and without the carriage return before that. -/
def dropLineEnd (chunk : List Char) : List Char :=
  match chunk.reverse with
  | '\n' :: '\r' :: rest => rest.reverse
  | '\n' :: rest => rest.reverse
  | _ => chunk

/-- The lines of a text, without their ends. -/
def lines (s : List Char) : List (List Char) := (lineChunks s).map dropLineEnd

/-! ### Fields and patterns -/

/-- The fields of a text between the occurrences of a separator; there is always one. -/
def fields (separator : Char) : List Char → List (List Char)
  | [] => [[]]
  | c :: rest =>
    if c = separator then [] :: fields separator rest
    else
      match fields separator rest with
      | [] => [[c]]
      | field :: more => (c :: field) :: more

/-- The text before and after the first separator. -/
def splitFirst? (separator : Char) : List Char → Option (List Char × List Char)
  | [] => none
  | c :: rest =>
    if c = separator then some ([], rest)
    else (splitFirst? separator rest).map fun (before, after) => (c :: before, after)

/-- The pattern is a part of the text. -/
def occursIn (pattern : List Char) : List Char → Bool
  | [] => pattern.isEmpty
  | c :: rest => pattern.isPrefixOf (c :: rest) || occursIn pattern rest

/-- The text with the occurrences of a pattern replaced, found from the left without overlap.
`skip` counts the characters still covered by the last occurrence. -/
def replaceFrom (pattern replacement : List Char) : Nat → List Char → List Char
  | _, [] => []
  | skip + 1, _ :: rest => replaceFrom pattern replacement skip rest
  | 0, c :: rest =>
    if pattern.isPrefixOf (c :: rest) then
      replacement ++ replaceFrom pattern replacement (pattern.length - 1) rest
    else c :: replaceFrom pattern replacement 0 rest

/-- Every occurrence of a nonempty pattern replaced. -/
def replaceAll (pattern replacement s : List Char) : List Char :=
  replaceFrom pattern replacement 0 s

/-- The parts joined by a separator between each two. -/
def join (separator : String) (parts : List String) : String := separator.intercalate parts

/-! ### The same on strings -/

/-- The string without white space at its ends. -/
def trimmed (s : String) : String := String.ofList (trim s.toList)

/-- The string without a given beginning, if it has it. -/
def dropPrefix? (s : String) (beginning : String) : Option String :=
  (List.isPrefixOf? beginning.toList s.toList).map String.ofList

/-- The string without a given end, if it has it. -/
def dropSuffix? (s : String) (ending : String) : Option String :=
  (List.isSuffixOf? ending.toList s.toList).map String.ofList

/-- The pattern is a part of the string. -/
def contains (s pattern : String) : Bool := occursIn pattern.toList s.toList

/-- The string begins as given. -/
def startsWith (s beginning : String) : Bool := beginning.toList.isPrefixOf s.toList

/-- The fields of a string between the occurrences of a separator. -/
def split (separator : Char) (s : String) : List String :=
  (fields separator s.toList).map String.ofList

end SparqlViews.Text
