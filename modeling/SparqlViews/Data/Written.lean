import SparqlViews.Data.Basic

/-! # Values as a text writes them

What is written in a text may mean different things where different things are asked for: an
unquoted `12` is a number, but it is also a good name. So a text is first read into what it writes,
and only a reader that asks for something decides what that is. What nobody asks for is never
judged.

* `Scalar`: a written scalar, by all that may be asked of it.
* `Written`: scalars, lists, records, and references to other parts of the same text.
* `Source`: all that a text writes, with the parts that can be referred to.
-/

namespace SparqlViews

/-- **A written scalar**, by what it is where something is asked for. -/
structure Scalar where
  /-- What it is where any value may stand. -/
  atom : Option Atom
  /-- What it is as a text. -/
  text : Option String := none
  /-- What it is as an unsigned integer of 64 bits. -/
  natural : Option Nat := none
  /-- What it is as one of several names. -/
  choice : Option String := none
  /-- Where a value may be missing, it says that there is none; nothing if it cannot be told. -/
  missing : Option Bool := some false
  /-- It stands for an empty list or record too. -/
  isEmpty : Bool := false
  deriving DecidableEq, Repr

/-- **What is written.** A list or a record that is marked as something of its own kind is none
where any value may stand. -/
inductive Written where
  | scalar (s : Scalar)
  | list (isMarked : Bool) (items : List Written)
  | record (isMarked : Bool) (fields : List (Written × Written))
  | reference (target : Nat)
  deriving Repr

/-- How a format lets records and lists stand for each other, and how deep they may be nested. -/
structure Format where
  depth : Nat
  /-- A list of its values in order may stand for a record. -/
  listsAsRecords : Bool
  /-- A record with one of several names over null may stand for the name. -/
  recordsAsChoices : Bool
  deriving DecidableEq, Repr

/-- **All that a text writes.** -/
structure Source where
  format : Format
  root : Written
  /-- The parts that can be referred to. -/
  targets : List (Nat × Written) := []
  /-- How many references may be followed. -/
  patience : Nat := 0

end SparqlViews
