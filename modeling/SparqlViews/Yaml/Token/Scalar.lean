import SparqlViews.Decimal.Reader
import SparqlViews.Yaml.Token

/-! # Tokens of scalars

* `plain?`: an unquoted scalar, up to an indicator that ends it.
* `quoted?`: a scalar between quotes, with the escapes of double quotes.
* `blockText?`: a text that is indented below its header, literal or folded.

Each gives the token and the place behind it.
-/

namespace SparqlViews.Yaml

/-! ### Unquoted scalars -/

/-- The characters that end an unquoted scalar inside of brackets. -/
def isFlowIndicator (c : Char) : Bool := [',', '[', ']', '\x7b', '\x7d'].contains c

/-- The characters up to white space or an indicator. Inside of brackets a colon may not stand
before an indicator. -/
def run? (inFlow : Bool) : List Char → Option (List Char)
  | [] => some []
  | c :: rest =>
    if isBlank c then some []
    else if inFlow && c = ':' && rest.head?.any fun d => d = '?' || isFlowIndicator d then none
    else if (c = ':' && blankNext rest) || (inFlow && isFlowIndicator c) then some []
    else (run? inFlow rest).map (c :: ·)

/-- An unquoted scalar with the place behind it, and whether the line has ended before that. -/
structure PlainRun where
  chars : List Char
  after : Place
  lineEnded : Bool

/-- The rest of an unquoted scalar behind a gap. -/
def plainFrom? (inFlow : Bool) (low : Nat) (gap : Gap) : Nat → Place → Option PlainRun
  | 0, _ => none
  | fuel + 1, p => do
    let ended : PlainRun := ⟨[], p, !gap.breaks.isEmpty⟩
    if p.isMarker || p.rest.head? == some '#' then return ended
    let run ← run? inFlow p.rest
    if run.isEmpty then return ended
    let chars := gap.text ++ run
    let next := p.past run
    if !next.rest.head?.any isBlank then return ⟨chars, next, false⟩
    let (gap, next) := next.gap low
    if gap.hasBadTab then none
    if !inFlow && next.column < low then return ⟨chars, next, !gap.breaks.isEmpty⟩
    let more ← plainFrom? inFlow low gap fuel next
    return { more with chars := chars ++ more.chars }

/-- **An unquoted scalar** in a block whose parts are indented by at least `low`. -/
def plain? (inFlow : Bool) (low : Nat) (p : Place) : Option PlainRun :=
  plainFrom? inFlow low {} (p.rest.length + 1) p

/-! ### Quoted scalars -/

/-- The character of a code of some digits of base sixteen. -/
def codePoint? (digits : Nat) (cs : List Char) : Option (Char × List Char) := do
  let code := cs.take digits
  if code.length < digits then none
  let n ← (code.mapM (Decimal.digit? 16)).map fun ds => ds.foldl (fun n d => n * 16 + d) 0
  if n.isValidChar then some (Char.ofNat n, cs.drop digits) else none

/-- The escapes of one character. -/
def escapes : List (Char × Char) :=
  [('0', '\x00'), ('a', '\x07'), ('b', '\x08'), ('t', '\t'), ('\t', '\t'), ('n', '\n'),
    ('v', '\x0b'), ('f', '\x0c'), ('r', '\r'), ('e', '\x1b'), (' ', ' '), ('"', '"'), ('/', '/'),
    ('\\', '\\'), ('N', '\u0085'), ('_', '\u00a0'), ('L', '\u2028'), ('P', '\u2029')]

/-- The character after a backslash. -/
def escaped? : List Char → Option (Char × List Char)
  | [] => none
  | c :: rest =>
    if c = 'x' then codePoint? 2 rest
    else if c = 'u' then codePoint? 4 rest
    else if c = 'U' then codePoint? 8 rest
    else (escapes.lookup c).map fun d => (d, rest)

/-- A piece of a quoted scalar with the place behind it: its end, or characters. -/
inductive Piece where
  | done (after : Place)
  | chars (text : List Char) (after : Place)

/-- The next piece of a quoted scalar: its end, a character, or white space. -/
def piece? (quote : Char) (p : Place) : Option Piece :=
  if p.isMarker then none
  else
    match p.rest with
    | [] => none
    | c :: rest =>
      if c = quote then
        if quote = '\'' && rest.head? == some '\'' then some (.chars ['\''] (p.skip 2))
        else some (.done (p.skip 1))
      else if c = '\\' && quote = '"' then
        if rest.head?.any isBreak then
          let (gap, after) := (p.skip 1).pastBreak.gap 0
          some (.chars gap.breaks after)
        else (escaped? rest).map fun (e, after) =>
          .chars [e] (p.skip (p.rest.length - after.length))
      else if isBlank c then
        let (gap, after) := p.gap 0
        some (.chars gap.text after)
      else some (.chars [c] (p.skip 1))

/-- The rest of a quoted scalar. -/
def quotedFrom? (quote : Char) : Nat → Place → Option (List Char × Place)
  | 0, _ => none
  | fuel + 1, p =>
    match piece? quote p with
    | none => none
    | some (.done after) => some ([], after)
    | some (.chars text after) =>
      (quotedFrom? quote fuel after).map fun (more, after) => (text ++ more, after)

/-- **A scalar between quotes.** -/
def quoted? (quote : Char) (p : Place) : Option (Token × Place) :=
  (quotedFrom? quote (p.rest.length + 1) (p.skip 1)).map fun (text, after) =>
    (.scalar .quoted (String.ofList text), after)

/-! ### Indented texts -/

/-- What becomes of the line breaks at the end of an indented text. -/
inductive Chomping where
  | strip
  | clip
  | keep
  deriving DecidableEq, Repr

/-- What the header of an indented text says of its end, and of the indentation beyond that of what
the text belongs to. -/
structure Header where
  chomping : Chomping := .clip
  increment : Option Nat := none
  deriving DecidableEq, Repr

/-- What a sign says of the end of a text. -/
def chomping? : List Char → Option (Chomping × List Char)
  | '+' :: rest => some (.keep, rest)
  | '-' :: rest => some (.strip, rest)
  | _ => none

/-- The digit of an indentation, which is not zero. -/
def increment? : List Char → Option (Option Nat × List Char)
  | [] => some (none, [])
  | c :: rest =>
    match Decimal.digit? 10 c with
    | some 0 => none
    | some n => some (some n, rest)
    | none => some (none, c :: rest)

/-- The header of an indented text after its indicator: a sign and a digit, in either order. -/
def header? (cs : List Char) : Option (Header × List Char) :=
  match chomping? cs with
  | some (chomping, rest) =>
    (increment? rest).map fun (increment, rest) => ({ chomping, increment }, rest)
  | none => do
    let (increment, rest) ← increment? cs
    match increment, chomping? rest with
    | some n, some (chomping, rest) => some (⟨chomping, some n⟩, rest)
    | increment, _ => some ({ increment }, rest)

/-- The place at the next line, if nothing but a comment comes before it. -/
def Place.nextLine? (p : Place) : Option Place :=
  let p := p.pastSpaces.pastComment
  match p.rest with
  | [] => some p
  | c :: _ => if isBreak c then some p.pastBreak else none

/-- The lines before a line that holds something. -/
structure Margin where
  /-- The breaks of empty lines. -/
  breaks : List Char := []
  /-- The greatest column met. -/
  most : Nat := 0

/-- The empty lines and the indentation at a place, which ends at `indent` if that is known. -/
def Margin.extend? (indent : Option Nat) : Nat → Margin → Place → Option (Margin × Place)
  | 0, m, p => some (m, p)
  | fuel + 1, m, p =>
    let (m, p) :=
      let room := indent.elim p.rest.length (· - p.column)
      let p := p.past ((p.rest.take room).takeWhile (· = ' '))
      ({ m with most := max m.most p.column : Margin }, p)
    match p.rest with
    | [] => some (m, p)
    | c :: _ =>
      if c = '\t' && indent.all fun n => p.column < n then none
      else if isBreak c then
        Margin.extend? indent fuel { m with breaks := m.breaks ++ [c] } p.pastBreak
      else some (m, p)

/-- The empty lines and the indentation at a place. -/
def Place.margin? (p : Place) (indent : Option Nat) : Option (Margin × Place) :=
  Margin.extend? indent (p.rest.length + 1) {} p

/-- The lines of an indented text so far: the text, the break of its last line, whether that line
begins with white space, and the breaks of the empty lines after it. -/
structure Lines where
  text : List Char := []
  lineBreak : List Char := []
  isIndented : Bool := false
  breaks : List Char := []

/-- What stands between a line and those before it. A line feed between lines that do not begin
with white space is folded. -/
def Lines.joint (isFolded : Bool) (l : Lines) (line : List Char) : List Char :=
  let folds := isFolded && l.lineBreak == ['\n'] && !l.isIndented && !line.head?.any isSpace
  (if folds then if l.breaks.isEmpty then [' '] else [] else l.lineBreak) ++ l.breaks

/-- The lines from a place on that are indented by `indent`. -/
def Lines.extend? (isFolded : Bool) (indent : Nat) : Nat → Lines → Place → Option (Lines × Place)
  | 0, l, p => some (l, p)
  | fuel + 1, l, p =>
    if p.column ≠ indent || p.rest.isEmpty then some (l, p)
    else do
      let (line, p) := p.span fun c => !isBreak c
      let lineBreak := p.rest.take 1
      let next := if lineBreak.isEmpty then p else p.pastBreak
      let (margin, next) ← next.margin? (some indent)
      let l := {
        text := l.text ++ l.joint isFolded line ++ line
        lineBreak
        isIndented := line.head?.any isSpace
        breaks := margin.breaks }
      Lines.extend? isFolded indent fuel l next

/-- The text with as many of the breaks at its end as are kept. -/
def Lines.chomped (l : Lines) (chomping : Chomping) : List Char :=
  l.text ++ (if chomping = .strip then [] else l.lineBreak) ++
    (if chomping = .keep then l.breaks else [])

/-- **A text that is indented below its header**, in a block whose parts are indented by at least
`low`. -/
def blockText? (low : Nat) (p : Place) : Option (Token × Place) := do
  let isFolded := p.rest.head? == some '>'
  let (header, rest) ← header? p.rest.tail
  let p ← (p.skip (p.rest.length - rest.length)).nextLine?
  let given := header.increment.map fun n => low - 1 + n
  let (margin, p) ← p.margin? given
  let indent := given.getD (max 1 (max low margin.most))
  let (l, p) ← Lines.extend? isFolded indent (p.rest.length + 1) { breaks := margin.breaks } p
  let text := String.ofList (l.chomped header.chomping)
  some (.scalar (if isFolded then .folded else .literal) text, p)

end SparqlViews.Yaml
