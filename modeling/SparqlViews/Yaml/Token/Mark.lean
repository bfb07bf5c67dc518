import SparqlViews.Decimal.Reader
import SparqlViews.Yaml.Token

/-! # Tokens of names, tags and directives

* `name?`: the name after the indicator of an anchor or a reference.
* `tag?`: a tag by its handle and the rest of it, which is held as octets.
* `directive?`: a line that states the version, or what a handle stands for.

Each gives the token and the place behind it.
-/

namespace SparqlViews.Yaml

/-- A character of a word: a letter, a digit, a hyphen or a low line of ASCII. -/
def isWordChar (c : Char) : Bool := c.isAlphanum || c = '_' || c = '-'

/-- The name after the indicator of an anchor or a reference. -/
def name? (p : Place) : Option (String × Place) :=
  let (name, after) := (p.skip 1).span isWordChar
  let ends := blankNext after.rest || after.startsWithAny "?:,]\x7d%@`".toList
  if name.isEmpty || !ends then none else some (String.ofList name, after)

/-! ### Tags -/

/-- A character of a tag; a whole tag may hold some more. -/
def isTagChar (isWhole : Bool) (c : Char) : Bool :=
  isWordChar c || ";/?:@&=+$.!~*'()".toList.contains c || (isWhole && ",[]".toList.contains c)

/-- An octet that is written as a percent sign and two digits. -/
def escapedOctet? : List Char → Option (Nat × List Char)
  | '%' :: a :: b :: rest => do
    some (16 * (← Decimal.digit? 16 a) + (← Decimal.digit? 16 b), rest)
  | _ => none

/-- The number of octets that follow the first octet of a character. -/
def octetsAfter? (first : Nat) : Option Nat :=
  if first < 0x80 then some 0
  else if first < 0xC0 then none
  else if first < 0xE0 then some 1
  else if first < 0xF0 then some 2
  else if first < 0xF8 then some 3
  else none

/-- Further octets of a character. -/
def octets? : Nat → List Char → Option (List Nat × List Char)
  | 0, cs => some ([], cs)
  | n + 1, cs => do
    let (octet, cs) ← escapedOctet? cs
    if octet < 0x80 || 0xC0 ≤ octet then none
    let (more, cs) ← octets? n cs
    some (octet :: more, cs)

/-- The octets of a character that is written by them. -/
def escapedChar? (cs : List Char) : Option (List Nat × List Char) := do
  let (first, cs) ← escapedOctet? cs
  let (more, cs) ← octets? (← octetsAfter? first) cs
  some (first :: more, cs)

/-- The octets of a tag up to the first character that is none of it. -/
def tagFrom? (isWhole : Bool) : Nat → List Char → Option (List Nat × List Char)
  | 0, cs => some ([], cs)
  | _, [] => some ([], [])
  | fuel + 1, c :: rest =>
    if c = '%' then do
      let (octets, rest) ← escapedChar? (c :: rest)
      let (more, rest) ← tagFrom? isWhole fuel rest
      some (octets ++ more, rest)
    else if isTagChar isWhole c then
      (tagFrom? isWhole fuel rest).map fun (more, rest) => (c.toNat :: more, rest)
    else some ([], c :: rest)

/-- The octets of a tag at a place, up to the first that is zero. -/
def tagText? (isWhole : Bool) (p : Place) : Option (List Nat × Place) := do
  let (octets, rest) ← tagFrom? isWhole p.rest.length p.rest
  some (octets.takeWhile (· ≠ 0), p.skip (p.rest.length - rest.length))

/-- The handle of a tag at a place: a word after an exclamation mark, and whether another one comes
after it, which then belongs to the handle. -/
def handle? (p : Place) : Option (String × Bool × Place) :=
  if !p.startsWith "!" then none
  else
    let (word, after) := (p.skip 1).span isWordChar
    if after.startsWith "!" then some (String.ofList ('!' :: word ++ ['!']), true, after.skip 1)
    else some (String.ofList ('!' :: word), false, after)

/-- A tag without its end: whole, with a handle, or private. An exclamation mark alone has no
handle. -/
def tagBody? (p : Place) : Option (String × List Nat × Place) :=
  if p.startsWith "!<" then do
    let start := p.skip 2
    let (suffix, after) ← tagText? true start
    if after.rest.length = start.rest.length || !after.startsWith ">" then none
    some ("", suffix, after.skip 1)
  else do
    let (handle, isNamed, start) ← handle? p
    let (suffix, after) ← tagText? false start
    if isNamed then
      if after.rest.length = start.rest.length then none
      some (handle, suffix, after)
    else
      let whole := wordOctets handle ++ suffix
      if whole.length = 1 then some ("", whole, after) else some ("!", whole.tail, after)

/-- **A tag**, which ends before white space, or inside of brackets before a comma. -/
def tag? (inFlow : Bool) (p : Place) : Option (Token × Place) := do
  let (handle, suffix, after) ← tagBody? p
  if (inFlow && after.startsWith ",") || blankNext after.rest then
    some (.tag handle suffix, after)
  else none

/-! ### Directives -/

/-- A number of at most nine digits. -/
def versionNumber? (p : Place) : Option (Nat × Place) :=
  let (digits, after) := p.span Char.isDigit
  if digits.isEmpty || 9 < digits.length then none else some (Decimal.ofDigits digits, after)

/-- The version after the name of its directive. -/
def version? (p : Place) : Option (Token × Place) := do
  let (major, p) ← versionNumber? p.pastSpaces
  if !p.startsWith "." then none
  let (minor, p) ← versionNumber? (p.skip 1)
  some (.version major minor, p)

/-- The handle after the name of its directive, and what it stands for. -/
def handleDirective? (p : Place) : Option (Token × Place) := do
  let (name, isNamed, p) ← handle? p.pastSpaces
  if !(isNamed || name = "!") || !p.rest.head?.any isSpace then none
  let p := p.pastSpaces
  let (expansion, after) ← tagText? true p
  if after.rest.length = p.rest.length || !blankNext after.rest then none
  some (.handle name expansion, after)

/-- **A directive**, which takes a line of its own. -/
def directive? (p : Place) : Option (Token × Place) := do
  let (name, p) := (p.skip 1).span isWordChar
  if !blankNext p.rest then none
  let (token, p) ←
    if name = "YAML".toList then version? p
    else if name = "TAG".toList then handleDirective? p
    else none
  let p := p.pastSpaces.pastComment
  match p.rest with
  | [] => some (token, p)
  | c :: _ => if isBreak c then some (token, p.pastBreak) else none

end SparqlViews.Yaml
