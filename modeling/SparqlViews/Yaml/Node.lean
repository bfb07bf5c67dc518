import SparqlViews.Yaml.Tag

/-! # The value of a list of tokens

* `Node`: what a document writes: scalars, lists, records and references, with their marks.
* `Node.ofTokens?`: the one document that tokens write; none if there is no token. Where a value may
  be left out, an empty scalar stands for it.
-/

namespace SparqlViews.Yaml

/-- What is said about a value in front of it. -/
structure Marks where
  anchor : Option String := none
  tag : Option (List Nat) := none
  deriving DecidableEq, Repr

/-- **What a document writes.** -/
inductive Node where
  | scalar (marks : Marks) (style : Style) (text : String)
  | list (marks : Marks) (items : List Node)
  | record (marks : Marks) (fields : List (Node × Node))
  | reference (name : String)
  deriving Repr

/-- What stands where nothing is written. -/
def Node.nothing (marks : Marks) : Node := .scalar marks .plain ""

/-- The anchor and the tag in front of a value, in either order. -/
def marks? (h : Handles) : List Token → Option (Marks × List Token)
  | .anchor name :: .tag handle suffix :: rest | .tag handle suffix :: .anchor name :: rest => do
    some (⟨some name, some (← h.octets? handle suffix)⟩, rest)
  | .anchor name :: rest => some ({ anchor := some name }, rest)
  | .tag handle suffix :: rest => do
    some ({ tag := some (← h.octets? handle suffix) }, rest)
  | rest => some ({}, rest)

/-- One of some tokens comes next. -/
def tokenNext (tokens : List Token) (rest : List Token) : Bool := rest.head?.any tokens.contains

/-- A node of which nothing is written but its marks. -/
def bare? (marks : Marks) (rest : List Token) : Option (Node × List Token) :=
  if marks = {} then none else some (.nothing marks, rest)

/-- The tokens behind the comma that comes before all but the first value in brackets. -/
def pastComma? (isFirst : Bool) (tokens : List Token) : Option (List Token) :=
  if isFirst then some tokens
  else
    match tokens with
    | .comma :: rest => some rest
    | _ => none

mutual

/-- **The node that tokens begin with.** `inBlock` says that it may be laid out in a block, and
`isField` that a list may be no deeper than the record it belongs to. -/
def node? (h : Handles) (fuel : Nat) (inBlock isField : Bool) (tokens : List Token) :
    Option (Node × List Token) :=
  match fuel with
  | 0 => none
  | fuel + 1 => do
    if let .reference name :: rest := tokens then return (.reference name, rest)
    let (marks, tokens) ← marks? h tokens
    if isField && tokenNext [.item] tokens then
      let (items, rest) ← levelItems? h fuel tokens
      return (.list marks items, rest)
    match tokens with
    | .scalar style text :: rest => return (.scalar marks style text, rest)
    | .listStart :: rest =>
      let (items, rest) ← flowItems? h fuel true rest
      return (.list marks items, rest)
    | .recordStart :: rest =>
      let (fields, rest) ← flowFields? h fuel true rest
      return (.record marks fields, rest)
    | .listBlock :: rest =>
      if !inBlock then bare? marks tokens
      else
        let (items, rest) ← blockItems? h fuel rest
        return (.list marks items, rest)
    | .recordBlock :: rest =>
      if !inBlock then bare? marks tokens
      else
        let (fields, rest) ← blockFields? h fuel rest
        return (.record marks fields, rest)
    | _ => bare? marks tokens

/-- The node before tokens that end it, or nothing is written there. -/
def unless? (h : Handles) (fuel : Nat) (inBlock isField : Bool) (ends tokens : List Token) :
    Option (Node × List Token) :=
  match fuel with
  | 0 => none
  | fuel + 1 =>
    if tokenNext ends tokens then some (.nothing {}, tokens)
    else node? h fuel inBlock isField tokens

/-- The items of a block. -/
def blockItems? (h : Handles) (fuel : Nat) (tokens : List Token) :
    Option (List Node × List Token) :=
  match fuel, tokens with
  | _, .blockEnd :: rest => some ([], rest)
  | fuel + 1, .item :: rest => do
    let (item, rest) ← unless? h fuel true false [.item, .blockEnd] rest
    let (items, rest) ← blockItems? h fuel rest
    return (item :: items, rest)
  | _, _ => none

/-- The items of a list that has no block of its own. -/
def levelItems? (h : Handles) (fuel : Nat) (tokens : List Token) :
    Option (List Node × List Token) :=
  match fuel, tokens with
  | 0, _ => none
  | fuel + 1, .item :: rest => do
    let (item, rest) ← unless? h fuel true false [.item, .key, .value, .blockEnd] rest
    let (items, rest) ← levelItems? h fuel rest
    return (item :: items, rest)
  | _, tokens => some ([], tokens)

/-- The fields of a block. -/
def blockFields? (h : Handles) (fuel : Nat) (tokens : List Token) :
    Option (List (Node × Node) × List Token) :=
  match fuel, tokens with
  | _, .blockEnd :: rest => some ([], rest)
  | fuel + 1, .key :: rest => do
    let ends : List Token := [.key, .value, .blockEnd]
    let (key, rest) ← unless? h fuel true true ends rest
    let (d, rest) ← match rest with
      | .value :: rest => unless? h fuel true true ends rest
      | rest => some (.nothing {}, rest)
    let (fields, rest) ← blockFields? h fuel rest
    return ((key, d) :: fields, rest)
  | _, _ => none

/-- The value of a key in brackets. -/
def flowValue? (h : Handles) (fuel : Nat) (closing : Token) (tokens : List Token) :
    Option (Node × List Token) :=
  match fuel, tokens with
  | 0, _ => none
  | fuel + 1, .value :: rest => unless? h fuel false false [.comma, closing] rest
  | _, rest => some (.nothing {}, rest)

/-- The items of a list in brackets. An item with a key is a record of one field; if nothing is
written for that key, the next token is passed over. -/
def flowItems? (h : Handles) (fuel : Nat) (isFirst : Bool) (tokens : List Token) :
    Option (List Node × List Token) :=
  match fuel with
  | 0 => none
  | fuel + 1 => do
    if let .listEnd :: rest := tokens then return ([], rest)
    match ← pastComma? isFirst tokens with
    | .listEnd :: rest => return ([], rest)
    | .key :: rest =>
      let (key, rest) ←
        if tokenNext [.value, .comma, .listEnd] rest then some (.nothing {}, rest.tail)
        else node? h fuel false false rest
      let (d, rest) ← flowValue? h fuel .listEnd rest
      let (items, rest) ← flowItems? h fuel false rest
      return (.record {} [(key, d)] :: items, rest)
    | rest =>
      let (item, rest) ← node? h fuel false false rest
      let (items, rest) ← flowItems? h fuel false rest
      return (item :: items, rest)

/-- The fields of a record in brackets. A value without a key is a key without a value. -/
def flowFields? (h : Handles) (fuel : Nat) (isFirst : Bool) (tokens : List Token) :
    Option (List (Node × Node) × List Token) :=
  match fuel with
  | 0 => none
  | fuel + 1 => do
    if let .recordEnd :: rest := tokens then return ([], rest)
    match ← pastComma? isFirst tokens with
    | .recordEnd :: rest => return ([], rest)
    | .key :: rest =>
      let (key, rest) ← unless? h fuel false false [.value, .comma, .recordEnd] rest
      let (d, rest) ← flowValue? h fuel .recordEnd rest
      let (fields, rest) ← flowFields? h fuel false rest
      return ((key, d) :: fields, rest)
    | rest =>
      let (key, rest) ← node? h fuel false false rest
      let (fields, rest) ← flowFields? h fuel false rest
      return ((key, .nothing {}) :: fields, rest)

end

/-! ### Documents -/

/-- The handles that directives state, each once, and the tokens behind the directives. There is at
most one version, which is 1.1 or 1.2. -/
def directives? (hasVersion : Bool) (h : Handles) : List Token → Option (Handles × List Token)
  | .version major minor :: rest =>
    if hasVersion || major ≠ 1 || !(minor = 1 || minor = 2) then none
    else directives? true h rest
  | .handle name expansion :: rest =>
    if (h.lookup name).isSome then none else directives? hasVersion ((name, expansion) :: h) rest
  | rest => some (h, rest)

/-- The token comes before the content of a document, or after it. -/
def isOutside : Token → Bool
  | .version _ _ | .handle _ _ | .documentStart | .documentEnd => true
  | _ => false

/-- The node of a document, and the tokens behind it. -/
def content? (h : Handles) (tokens : List Token) : Option (Node × List Token) :=
  if tokens.head?.all isOutside then some (.nothing {}, tokens)
  else node? (h ++ .standard) (4 * tokens.length + 4) true false tokens

/-- The one document of tokens that are not empty. A document that does not begin with a line of its
own has no directives, and is not empty. -/
def document? (tokens : List Token) : Option (Node × List Token) :=
  if tokens.head?.any isOutside then
    match directives? false [] tokens with
    | some (h, .documentStart :: rest) => content? h rest
    | _ => none
  else content? [] tokens

/-- **The value of the one document** that tokens write, if they write one. -/
def Node.ofTokens? (tokens : List Token) : Option (Option Node) :=
  if tokens.isEmpty then some none
  else
    match document? tokens with
    | some (n, rest) => if rest.all (· = .documentEnd) then some (some n) else none
    | none => none

end SparqlViews.Yaml
