import SparqlViews.Yaml.Token

/-! # Tags of YAML

A tag says what kind of value follows. Its handle stands for the beginning of its name, as
directives say; two handles stand for something without them.

* `Tag`: what a tag says.
* `Handles.tag?`: the tag of a handle and the octets after it.
-/

namespace SparqlViews.Yaml

/-- **What a tag says of a value.** -/
inductive Tag where
  | bool
  | int
  | real
  | null
  /-- A private kind. -/
  | own (name : String)
  /-- A private kind whose name is no text. -/
  | unreadable
  /-- A kind that is not known; a scalar of it is a text. -/
  | other
  deriving DecidableEq, Repr

/-- The name that standard kinds begin with. -/
def standardPrefix : String := "tag:yaml.org,2002:"

/-- The text of octets. -/
def textOfOctets? (octets : List Nat) : Option String :=
  String.fromUTF8? ⟨(octets.map Nat.toUInt8).toArray⟩

/-- The tag of a name. -/
def Tag.ofOctets (octets : List Nat) : Tag :=
  let names : List (String × Tag) :=
    [("bool", .bool), ("int", .int), ("float", .real), ("null", .null)]
  if octets.head? == some '!'.toNat then
    match textOfOctets? octets.tail with
    | some name => .own name
    | none => .unreadable
  else
    match names.find? fun e => octets = wordOctets (standardPrefix ++ e.1) with
    | some (_, tag) => tag
    | none => .other

/-- What handles of tags stand for. -/
abbrev Handles := List (String × List Nat)

namespace Handles

/-- What the handles stand for that every document has. -/
def standard : Handles := [("!", wordOctets "!"), ("!!", wordOctets standardPrefix)]

/-- The octets of a tag. A tag without a handle is whole. -/
def octets? (h : Handles) (handle : String) (suffix : List Nat) : Option (List Nat) :=
  if handle.isEmpty then some suffix else (h.lookup handle).map (· ++ suffix)

end Handles

end SparqlViews.Yaml
