import SparqlViews.Data.Part
import SparqlViews.Json.Number

/-! # JSON text

* `Json.read?`: what a JSON text writes. Nesting is not bounded here, but where values are asked
  for; and a text with half of a surrogate pair, or a number that is too large for a double, does no
  harm where nobody asks for it.
-/

namespace SparqlViews.Json

/-- Values may be nested in 127 levels, a list may stand for a record, and a record for a choice. -/
def format : Format := ⟨127, true, true⟩

/-! ### Scalars -/

/-- A text, or nothing if it has half of a surrogate pair. -/
def textScalar (s : Option String) : Scalar :=
  { atom := s.map .text, text := s, choice := s }

/-- A number, or nothing if it is too large. -/
def numberScalar (a : Option Atom) : Scalar :=
  { atom := a, natural := a.bind fun a => (Data.atom a).natural64? }

def nullScalar : Scalar := { atom := some .null, missing := some true }

def boolScalar (b : Bool) : Scalar := { atom := some (.bool b) }

/-! ### Quoted texts -/

/-- The text after white space. -/
def skipSpace (cs : List Char) : List Char :=
  cs.dropWhile fun c => c = ' ' || c = '\t' || c = '\n' || c = '\r'

/-- Four digits of base sixteen. -/
def codeUnit? : List Char → Option (Nat × List Char)
  | a :: b :: c :: d :: rest => do
    let a ← Decimal.digit? 16 a
    let b ← Decimal.digit? 16 b
    let c ← Decimal.digit? 16 c
    let d ← Decimal.digit? 16 d
    some (((a * 16 + b) * 16 + c) * 16 + d, rest)
  | _ => none

/-- What stands between quotes: characters, and code units of escapes. -/
inductive Piece where
  | char (c : Char)
  | unit (n : Nat)
  deriving DecidableEq, Repr

/-- The escapes of one character. -/
def escapes : List (Char × Char) :=
  [('"', '"'), ('\\', '\\'), ('/', '/'), ('b', '\x08'), ('f', '\x0c'), ('n', '\n'), ('r', '\r'),
    ('t', '\t')]

/-- The rest of a quoted text after its opening quote. -/
def quoted? : Nat → List Char → Option (List Piece × List Char)
  | 0, _ => none
  | _, [] => none
  | fuel + 1, c :: rest =>
    if c = '"' then some ([], rest)
    else if c = '\\' then
      match rest with
      | 'u' :: rest => do
        let (unit, rest) ← codeUnit? rest
        let (pieces, rest) ← quoted? fuel rest
        some (.unit unit :: pieces, rest)
      | d :: rest => do
        let e ← escapes.lookup d
        let (pieces, rest) ← quoted? fuel rest
        some (.char e :: pieces, rest)
      | [] => none
    else if c.toNat < 32 then none
    else (quoted? fuel rest).map fun (pieces, rest) => (.char c :: pieces, rest)

/-- The unit begins a surrogate pair. -/
def isHigh (unit : Nat) : Bool := 0xD800 ≤ unit && unit ≤ 0xDBFF

/-- The unit ends a surrogate pair. -/
def isLow (unit : Nat) : Bool := 0xDC00 ≤ unit && unit ≤ 0xDFFF

/-- **The characters of a quoted text**; a half of a surrogate pair is none. -/
def chars? : List Piece → Option (List Char)
  | [] => some []
  | .char c :: rest => (chars? rest).map (c :: ·)
  | .unit high :: .unit low :: rest =>
    if isHigh high then
      if isLow low then
        (chars? rest).map (Char.ofNat (0x10000 + (high - 0xD800) * 0x400 + (low - 0xDC00)) :: ·)
      else none
    else if isLow high then none
    else (chars? (.unit low :: rest)).map (Char.ofNat high :: ·)
  | .unit n :: rest => if isHigh n || isLow n then none else (chars? rest).map (Char.ofNat n :: ·)

/-- A quoted text after its opening quote. -/
def text? (fuel : Nat) (cs : List Char) : Option (Written × List Char) :=
  (quoted? fuel cs).map fun (pieces, rest) =>
    (.scalar (textScalar ((chars? pieces).map String.ofList)), rest)

/-! ### Values -/

mutual

/-- A value after white space. -/
def value? : Nat → List Char → Option (Written × List Char)
  | 0, _ => none
  | fuel + 1, cs =>
    match skipSpace cs with
    | 'n' :: 'u' :: 'l' :: 'l' :: rest => some (.scalar nullScalar, rest)
    | 't' :: 'r' :: 'u' :: 'e' :: rest => some (.scalar (boolScalar true), rest)
    | 'f' :: 'a' :: 'l' :: 's' :: 'e' :: rest => some (.scalar (boolScalar false), rest)
    | '"' :: rest => text? fuel rest
    | '[' :: rest =>
      match skipSpace rest with
      | ']' :: rest => some (.list false [], rest)
      | rest => (items? fuel rest).map fun (items, rest) => (.list false items, rest)
    | '{' :: rest =>
      match skipSpace rest with
      | '}' :: rest => some (.record false [], rest)
      | rest => (fields? fuel rest).map fun (fields, rest) => (.record false fields, rest)
    | cs => (numeral? cs).map fun (n, rest) => (.scalar (numberScalar n.atom?), rest)

/-- The items of a list up to its closing bracket. -/
def items? : Nat → List Char → Option (List Written × List Char)
  | 0, _ => none
  | fuel + 1, cs => do
    let (w, rest) ← value? fuel cs
    match skipSpace rest with
    | ',' :: rest =>
      let (items, rest) ← items? fuel rest
      some (w :: items, rest)
    | ']' :: rest => some ([w], rest)
    | _ => none

/-- The fields of a record up to its closing brace. -/
def fields? : Nat → List Char → Option (List (Written × Written) × List Char)
  | 0, _ => none
  | fuel + 1, cs =>
    match skipSpace cs with
    | '"' :: rest => do
      let (key, rest) ← text? fuel rest
      match skipSpace rest with
      | ':' :: rest =>
        let (w, rest) ← value? fuel rest
        match skipSpace rest with
        | ',' :: rest =>
          let (fields, rest) ← fields? fuel rest
          some ((key, w) :: fields, rest)
        | '}' :: rest => some ([(key, w)], rest)
        | _ => none
      | _ => none
    | _ => none

end

/-- **What a text writes.** -/
def read? (text : String) : Option Source := do
  let cs := text.toList
  let (root, rest) ← value? (2 * cs.length + 2) cs
  if (skipSpace rest).isEmpty then some { format, root } else none

end SparqlViews.Json
