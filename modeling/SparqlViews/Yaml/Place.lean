/-! # Places in a YAML text

* `unifyBreaks`: the same text with fewer kinds of line breaks, which all later parts read.
* `Place`: the rest of a text, with the line and the column.
* `Gap`: white space inside of a scalar, and what it stands for: line breaks are folded.
-/

namespace SparqlViews.Yaml

/-! ### Characters -/

/-- White space within a line. -/
def isSpace (c : Char) : Bool := c = ' ' || c = '\t'

/-- A line break; the separators of lines and of paragraphs keep their own kind. -/
def isBreak (c : Char) : Bool := c = '\n' || c = '\u2028' || c = '\u2029'

/-- White space or a line break. -/
def isBlank (c : Char) : Bool := isSpace c || isBreak c

/-- White space, or nothing at all, comes next. -/
def blankNext (cs : List Char) : Bool := cs.head?.all isBlank

/-- The text with a line feed for every other line break. -/
def unifyBreaks : List Char → List Char
  | [] => []
  | '\r' :: '\n' :: rest => '\n' :: unifyBreaks rest
  | c :: rest => (if c = '\r' || c = '\u0085' then '\n' else c) :: unifyBreaks rest

/-- The mark of the byte order. -/
def byteOrderMark : Char := '\uFEFF'

/-- A character that a text may hold. -/
def isAllowed (c : Char) : Bool :=
  let n := c.toNat
  c = '\t' || c = '\n' || (0x20 ≤ n && n ≤ 0x7E) || (0xA0 ≤ n && n ≤ 0xFFFD) || 0x10000 ≤ n

/-! ### Places -/

/-- **A place in a text.** -/
structure Place where
  rest : List Char
  line : Nat := 0
  column : Nat := 0
  /-- The octets of the text before the place. -/
  octets : Nat := 0

namespace Place

/-- The place behind some of the next characters, of which none ends the line. -/
def past (p : Place) (chars : List Char) : Place := {
  p with
  rest := p.rest.drop chars.length
  column := p.column + chars.length
  octets := p.octets + (String.ofList chars).utf8ByteSize }

/-- The place some characters further on in the line. -/
def skip (p : Place) (n : Nat) : Place := p.past (p.rest.take n)

/-- The place behind a line break. -/
def pastBreak (p : Place) : Place :=
  { rest := p.rest.drop 1, line := p.line + 1, column := 0, octets := p.octets + 1 }

/-- The next characters of a kind, none of which ends the line, and the place behind them. -/
def span (p : Place) (f : Char → Bool) : List Char × Place :=
  let chars := p.rest.takeWhile f
  (chars, p.past chars)

/-- The place behind the next characters of a kind, none of which ends the line. -/
def pastAll (p : Place) (f : Char → Bool) : Place := (p.span f).2

/-- The place behind white space in the line. -/
def pastSpaces (p : Place) : Place := p.pastAll isSpace

/-- The place at the end of the line, if a comment begins here. -/
def pastComment (p : Place) : Place :=
  if p.rest.head? == some '#' then p.pastAll fun c => !isBreak c else p

/-- A text comes next. -/
def startsWith (p : Place) (beginning : String) : Bool := beginning.toList.isPrefixOf p.rest

/-- One of some characters comes next. -/
def startsWithAny (p : Place) (chars : List Char) : Bool := p.rest.head?.any chars.contains

/-- The line `---` or `...`, which begins or ends a document, begins here. -/
def isMarker (p : Place) : Bool :=
  p.column = 0 && (p.startsWith "---" || p.startsWith "...") && blankNext (p.rest.drop 3)

end Place

/-! ### White space inside of scalars -/

/-- White space inside of a scalar: that before the first line break, the breaks, and whether a
tabulator stands where a scalar must be indented. -/
structure Gap where
  spaces : List Char := []
  breaks : List Char := []
  hasBadTab : Bool := false

/-- **What white space stands for.** A first line feed is a space, or nothing before further breaks;
all other breaks are kept. -/
def Gap.text (g : Gap) : List Char :=
  match g.breaks with
  | [] => g.spaces
  | ['\n'] => [' ']
  | '\n' :: more => more
  | breaks => breaks

/-- The gap from a place on, in a scalar that is indented by at least `low`. -/
def Gap.extend (low : Nat) : Nat → Gap → Place → Gap × Place
  | 0, g, p => (g, p)
  | fuel + 1, g, p =>
    match p.rest with
    | [] => (g, p)
    | c :: _ =>
      if isBreak c then
        Gap.extend low fuel { g with spaces := [], breaks := g.breaks ++ [c] } p.pastBreak
      else if !isSpace c then (g, p)
      else if g.breaks.isEmpty then
        Gap.extend low fuel { g with spaces := g.spaces ++ [c] } (p.skip 1)
      else
        let isBad := c = '\t' && p.column < low
        Gap.extend low fuel { g with hasBadTab := g.hasBadTab || isBad } (p.skip 1)

/-- The gap at a place, and the place behind it. -/
def Place.gap (p : Place) (low : Nat) : Gap × Place := Gap.extend low p.rest.length {} p

end SparqlViews.Yaml
