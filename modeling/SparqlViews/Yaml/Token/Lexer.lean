import SparqlViews.Yaml.Token.Mark
import SparqlViews.Yaml.Token.Scalar

/-! # The tokens of a text

A text is read token by token. A key is only known for one when its colon comes, so the place where
a key may have begun is kept, and the tokens that belong in front of it are put there afterwards.

* `Lexer`: the tokens so far, the columns of the open blocks, and the beginnings of keys.
* `Lexer.token?`: the lexer behind the next token; blocks that end before it are closed first.
* `Token.ofText?`: all tokens of a text; a fault anywhere spoils all of them.
-/

namespace SparqlViews.Yaml

/-- The place where a key may have begun. -/
structure KeyStart where
  /-- The number of tokens before the key. -/
  position : Nat
  /-- Nothing but a key may stand here. -/
  isRequired : Bool
  line : Nat
  column : Nat
  octets : Nat

/-- How far a key reaches at most, in octets. -/
def keyReach : Nat := 1024

/-- The colon of the key may still come at a place. -/
def KeyStart.reaches (k : KeyStart) (p : Place) : Bool :=
  k.line = p.line && p.octets ≤ k.octets + keyReach

/-- **What is known of a text up to a place.** -/
structure Lexer where
  place : Place
  /-- The tokens, the latest first. -/
  tokens : List Token := []
  count : Nat := 0
  /-- The beginning of a key inside of the latest bracket. -/
  key : Option KeyStart := none
  /-- The same outside of each bracket that is open. -/
  outerKeys : List (Option KeyStart) := []
  /-- The columns of the open blocks, the innermost first. -/
  columns : List Nat := []
  /-- A key may begin here. -/
  allowsKey : Bool := true

namespace Lexer

def inFlow (l : Lexer) : Bool := !l.outerKeys.isEmpty

/-- The least column of what belongs to the innermost block. -/
def low (l : Lexer) : Nat := l.columns.head?.elim 0 (· + 1)

/-! ### Tokens and blocks -/

def emit (l : Lexer) (t : Token) : Lexer :=
  { l with tokens := t :: l.tokens, count := l.count + 1 }

/-- The lexer with a token put in front of those from a position on. -/
def insertAt (l : Lexer) (position : Nat) (t : Token) : Lexer :=
  { l with tokens := l.tokens.insertIdx (l.count - position) t, count := l.count + 1 }

/-- The lexer with a block opened at a column that is deeper than all open ones. -/
def openBlock (l : Lexer) (column position : Nat) (t : Token) : Lexer :=
  if !l.inFlow && l.low ≤ column then
    { l.insertAt position t with columns := column :: l.columns }
  else l

/-- The lexer with the blocks closed that are deeper than some columns. -/
def closeBlocks (l : Lexer) (isDeeper : Nat → Bool) : Lexer :=
  if l.inFlow then l
  else
    let closed := l.columns.takeWhile isDeeper
    { l with
      columns := l.columns.dropWhile isDeeper
      tokens := closed.map (fun _ => .blockEnd) ++ l.tokens
      count := l.count + closed.length }

/-! ### Beginnings of keys -/

/-- The lexer without a beginning of a key, unless a key is required there. -/
def forgetKey? (l : Lexer) : Option Lexer :=
  if l.key.any (·.isRequired) then none else some { l with key := none }

/-- The lexer with the beginning of a key here, if a key may begin. -/
def saveKey? (l : Lexer) : Option Lexer :=
  if !l.allowsKey then some l
  else do
    let p := l.place
    let isRequired := !l.inFlow && l.columns.head? == some p.column
    let key : KeyStart := ⟨l.count, isRequired, p.line, p.column, p.octets⟩
    return { ← l.forgetKey? with key := some key }

/-- The beginnings of keys that still reach here; nothing if a required key does not. -/
def dropStaleKeys? (l : Lexer) : Option Lexer := do
  let keep := fun (k : Option KeyStart) =>
    match k with
    | none => some none
    | some k =>
      if k.reaches l.place then some (some k) else if k.isRequired then none else some none
  return { l with key := ← keep l.key, outerKeys := ← l.outerKeys.mapM keep }

/-! ### White space between tokens -/

/-- The lexer at the next place where something is written. A tabulator is passed only where it
cannot be mistaken for indentation. -/
def toToken : Nat → Lexer → Lexer
  | 0, l => l
  | fuel + 1, l =>
    let p := l.place
    let p := if p.column = 0 && p.rest.head? == some byteOrderMark then p.skip 1 else p
    let p := (p.pastAll fun c => c = ' ' || (c = '\t' && (l.inFlow || !l.allowsKey))).pastComment
    if p.rest.head?.any isBreak then
      toToken fuel { l with place := p.pastBreak, allowsKey := l.allowsKey || !l.inFlow }
    else { l with place := p }

/-! ### Single tokens -/

/-- The lexer behind an indicator. -/
def indicator (l : Lexer) (t : Token) (allowsKey : Bool) : Lexer :=
  { l.emit t with place := l.place.skip 1, allowsKey }

/-- The lexer behind a token that may begin a key. -/
def keyed? (l : Lexer) (read : Place → Option (Token × Place)) : Option Lexer := do
  let l ← l.saveKey?
  let (t, place) ← read l.place
  return { l.emit t with place, allowsKey := false }

/-- The lexer behind an opening bracket. -/
def openBracket? (l : Lexer) (t : Token) : Option Lexer := do
  let l ← l.saveKey?
  return { l.indicator t true with key := none, outerKeys := l.key :: l.outerKeys }

/-- The lexer behind a closing bracket. -/
def closeBracket? (l : Lexer) (t : Token) : Option Lexer := do
  let l ← l.forgetKey?
  let l := l.indicator t false
  match l.outerKeys with
  | [] => return l
  | key :: outerKeys => return { l with key, outerKeys }

/-- The lexer behind the hyphen of an item or the question mark of a key, which open a block. -/
def opening? (l : Lexer) (block t : Token) (allowsKey : Bool) : Option Lexer := do
  if !l.inFlow && !l.allowsKey then none
  let l ← (l.openBlock l.place.column l.count block).forgetKey?
  return l.indicator t allowsKey

/-- The lexer behind the colon before a value. Its key begins where a key may have begun; otherwise
the key was announced before. -/
def colon? (l : Lexer) : Option Lexer :=
  match l.key with
  | some k =>
    let l := { l.insertAt k.position .key with key := none }
    some ((l.openBlock k.column k.position .recordBlock).indicator .value false)
  | none =>
    if !l.inFlow && !l.allowsKey then none
    else
      let l := l.openBlock l.place.column l.count .recordBlock
      some (l.indicator .value !l.inFlow)

/-- The lexer behind a line that belongs to no block. -/
def outside? (l : Lexer) (read : Place → Option (Token × Place)) : Option Lexer := do
  let l ← (l.closeBlocks fun _ => true).forgetKey?
  let (t, place) ← read l.place
  return { l.emit t with place, allowsKey := false }

/-- The lexer behind an indented text. -/
def blockScalar? (l : Lexer) : Option Lexer := do
  let l ← l.forgetKey?
  let (t, place) ← blockText? l.low l.place
  return { l.emit t with place, allowsKey := true }

/-- The lexer behind an unquoted scalar. -/
def plainScalar? (l : Lexer) : Option Lexer := do
  let l ← l.saveKey?
  let r ← plain? l.inFlow l.low l.place
  let t : Token := .scalar .plain (String.ofList r.chars)
  return { l.emit t with place := r.after, allowsKey := r.lineEnded }

/-- An unquoted scalar may begin with a character before others. -/
def startsPlain (inFlow : Bool) (c : Char) (rest : List Char) : Bool :=
  if c = '-' then !rest.head?.any isSpace
  else if c = '?' || c = ':' then !inFlow && !blankNext rest
  else !(isBlank c || isFlowIndicator c || "#&*!|>'\"%@`".toList.contains c)

/-- **The lexer behind the token** that begins with a character before others. -/
def token? (l : Lexer) (c : Char) (rest : List Char) : Option Lexer :=
  let p := l.place
  if p.column = 0 && c = '%' then l.outside? directive?
  else if p.isMarker then
    l.outside? fun p => some (if c = '-' then .documentStart else .documentEnd, p.skip 3)
  else if c = '[' then l.openBracket? .listStart
  else if c = '\x7b' then l.openBracket? .recordStart
  else if c = ']' then l.closeBracket? .listEnd
  else if c = '\x7d' then l.closeBracket? .recordEnd
  else if c = ',' then do (← l.forgetKey?).indicator .comma true
  else if c = '-' && blankNext rest then l.opening? .listBlock .item true
  else if c = '?' && (l.inFlow || blankNext rest) then l.opening? .recordBlock .key !l.inFlow
  else if c = ':' && (l.inFlow || blankNext rest) then l.colon?
  else if c = '*' then l.keyed? fun p => (name? p).map fun (name, p) => (.reference name, p)
  else if c = '&' then l.keyed? fun p => (name? p).map fun (name, p) => (.anchor name, p)
  else if c = '!' then l.keyed? (tag? l.inFlow)
  else if (c = '|' || c = '>') && !l.inFlow then l.blockScalar?
  else if c = '\'' || c = '"' then l.keyed? (quoted? c)
  else if startsPlain l.inFlow c rest then l.plainScalar?
  else none

/-- **The lexer at the end of the text.** Each token has a character at least. -/
def run? : Nat → Lexer → Option Lexer
  | 0, _ => none
  | fuel + 1, l => do
    let l ← (l.toToken (fuel + 1)).dropStaleKeys?
    match l.place.rest with
    | [] => (l.closeBlocks fun _ => true).forgetKey?
    | c :: rest =>
      run? fuel (← (l.closeBlocks fun column => l.place.column < column).token? c rest)

end Lexer

/-- **The tokens of a text.** -/
def Token.ofText? (text : String) : Option (List Token) := do
  let cs := unifyBreaks text.toList
  if !cs.all isAllowed then none
  let l ← Lexer.run? (cs.length + 1) { place := { rest := cs } }
  return l.tokens.reverse

end SparqlViews.Yaml
