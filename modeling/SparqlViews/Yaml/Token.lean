import SparqlViews.Yaml.Place

/-! # Tokens of YAML

A text is a list of tokens: scalars, the names and tags in front of values, and the marks that say
how values are laid out. Layout by indentation is written with tokens too, which open and close
blocks.
-/

namespace SparqlViews.Yaml

/-- How a scalar is written. -/
inductive Style where
  | plain
  | quoted
  | literal
  | folded
  deriving DecidableEq, Repr

/-- **A token.** -/
inductive Token where
  /-- A directive that states the version. -/
  | version (major minor : Nat)
  /-- A directive that states what a handle of tags stands for. -/
  | handle (name : String) (expansion : List Nat)
  | documentStart
  | documentEnd
  /-- A list begins in a block. -/
  | listBlock
  /-- A record begins in a block. -/
  | recordBlock
  | blockEnd
  | listStart
  | listEnd
  | recordStart
  | recordEnd
  /-- The hyphen before an item in a block. -/
  | item
  /-- The comma between values in brackets. -/
  | comma
  /-- A key comes next. -/
  | key
  /-- The value of a key comes next. -/
  | value
  | reference (name : String)
  | anchor (name : String)
  /-- A tag by its handle and the octets after it. -/
  | tag (handle : String) (suffix : List Nat)
  | scalar (style : Style) (text : String)
  deriving DecidableEq, Repr

/-- The octets of a word of ASCII. -/
def wordOctets (word : String) : List Nat := word.toList.map Char.toNat

end SparqlViews.Yaml
