import SparqlViews.Yaml.Node
import SparqlViews.Yaml.Scalar
import SparqlViews.Yaml.Token.Lexer

/-! # YAML text

* `Yaml.read?`: what a YAML text writes.
* `Node.link`: a node with a number for each anchor. A reference is to the number that its name has
  when the reference comes. A name that is given a second time takes the number of the next new
  name, so that both then stand for whichever part comes last.
-/

namespace SparqlViews.Yaml

/-- Values may be nested in 128 levels; lists and records do not stand for each other. -/
def format : Format := ⟨128, false, false⟩

/-! ### Anchors -/

/-- The names of anchors with their numbers. -/
abbrev Names := List (String × Nat)

/-- The names with one more, and its number: how many names there were before. -/
def Names.add (names : Names) (name : String) : Nat × Names :=
  (names.length, (name, names.length) :: names.filter fun e => e.1 ≠ name)

/-- What a node writes, with the parts inside of it that can be referred to, in order of their
beginnings. -/
structure Linked (α : Type) where
  written : α
  targets : List (Nat × Written) := []

/-- A part with the number of its anchor, which comes before those inside of it. -/
def Linked.under (number : Option Nat) (l : Linked Written) : Linked Written :=
  { l with targets := (number.toList.map fun n => (n, l.written)) ++ l.targets }

/-- A linking keeps the names so far, and fails at a name that is unknown. -/
abbrev Linking (α : Type) := StateT Names Option α

/-- The number of an anchor that begins here. -/
def Marks.number (m : Marks) : Linking (Option Nat) := do
  match m.anchor with
  | none => return none
  | some name =>
    let (number, names) := (← get).add name
    set names
    return some number

def Marks.tag? (m : Marks) : Option Tag := m.tag.map Tag.ofOctets

/-- The value is marked as something of its own kind. -/
def Marks.isOwn (m : Marks) : Bool :=
  match m.tag? with
  | some (.own _) => true
  | _ => false

mutual

/-- **What a node writes.** -/
def Node.link : Node → Linking (Linked Written)
  | .reference name => do
    let number ← ((← get).lookup name : Option Nat)
    return { written := .reference number }
  | .scalar marks style text => do
    let number ← marks.number
    return Linked.under number { written := .scalar (Yaml.scalar style text marks.tag?) }
  | .list marks items => do
    let number ← marks.number
    let l ← linkItems items
    return Linked.under number { l with written := .list marks.isOwn l.written }
  | .record marks fields => do
    let number ← marks.number
    let l ← linkFields fields
    return Linked.under number { l with written := .record marks.isOwn l.written }

def linkItems : List Node → Linking (Linked (List Written))
  | [] => return { written := [] }
  | n :: rest => do
    let l ← n.link
    let ls ← linkItems rest
    return ⟨l.written :: ls.written, l.targets ++ ls.targets⟩

def linkFields : List (Node × Node) → Linking (Linked (List (Written × Written)))
  | [] => return { written := [] }
  | (key, n) :: rest => do
    let k ← key.link
    let l ← n.link
    let ls ← linkFields rest
    return ⟨(k.written, l.written) :: ls.written, k.targets ++ l.targets ++ ls.targets⟩

end

/-! ### Texts -/

mutual

/-- The size of a node: its scalars, references, and brackets. -/
def Node.size : Node → Nat
  | .scalar _ _ _ | .reference _ => 1
  | .list _ items => itemsSize items + 2
  | .record _ fields => fieldsSize fields + 2

def itemsSize : List Node → Nat
  | [] => 0
  | n :: rest => n.size + itemsSize rest

def fieldsSize : List (Node × Node) → Nat
  | [] => 0
  | (key, n) :: rest => key.size + n.size + fieldsSize rest

end

/-- How many references may be followed for each part of a text. -/
def patience : Nat := 100

/-- The source of a node. Of two parts with one number the later counts. -/
def Node.source? (n : Node) : Option Source :=
  (n.link.run' []).map fun l => {
    format
    root := l.written
    targets := l.targets.reverse
    patience := patience * n.size }

/-- **What a text writes**: one document, or nothing at all. -/
def read? (text : String) : Option Source := do
  match ← Node.ofTokens? (← Token.ofText? text) with
  | none => some { format, root := .scalar voidScalar }
  | some n => n.source?

end SparqlViews.Yaml
