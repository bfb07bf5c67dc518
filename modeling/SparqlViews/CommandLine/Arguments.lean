import SparqlViews.Settings.Reader

/-! # The arguments of a command

A command is one of `compile`, `coalesce` and `endpoints`, with options that begin with two hyphens.
An option is followed by its value, or has it after an equals sign. The options of the settings may
stand before the command too; where one is given at both places, the later counts.

* `Invocation`: what the arguments ask for.
* `Invocation.ofArguments?`: read from arguments; nothing if they do not fit.
-/

namespace SparqlViews

/-- **What a command does.** -/
inductive Command where
  | compile (config endpoint : String) (parameters : List (String × String))
  | coalesce (config endpoint : String) (view : Option String) (results : String)
  | endpoints (config : String)
  deriving DecidableEq, Repr

/-- A command with the settings that it is run under. -/
structure Invocation where
  settingsFile : Option String
  overrides : Settings.Overrides
  command : Command
  deriving DecidableEq, Repr

namespace Invocation

/-- The options of the settings. -/
def settingOptions : List String :=
  ["settings", "soft-limit", "hard-limit", "root-variable", "strategy"]

/-- The option that may be given many times. -/
def repeatedOption : String := "param"

/-- The options of a command, beside those of the settings. -/
def commandOptions? : String → Option (List String)
  | "compile" => some ["config", "endpoint", "param"]
  | "coalesce" => some ["config", "endpoint", "view", "results"]
  | "endpoints" => some ["config"]
  | _ => none

/-- An option with its value. -/
abbrev Given := List (String × String)

/-- The argument cannot be a value: it looks like an option. -/
def looksLikeOption (argument : String) : Bool :=
  Text.startsWith argument "-" && argument ≠ "-"

/-- The options at the front of arguments, and the arguments from the first other one on. -/
def readOptions? (known : List String) (found : Given) : List String → Option (Given × List String)
  | [] => some (found, [])
  | argument :: rest =>
    if !looksLikeOption argument then some (found, argument :: rest)
    else
      match Text.dropPrefix? argument "--" with
      | none => none
      | some "" => if rest.isEmpty then some (found, []) else none
      | some body =>
        let add := fun (name value : String) =>
          if !known.contains name then none
          else if name ≠ repeatedOption && (found.lookup name).isSome then none
          else some (found ++ [(name, value)])
        match Text.splitFirst? '=' body.toList, rest with
        | some (name, value), rest => do
          readOptions? known (← add (String.ofList name) (String.ofList value)) rest
        | none, value :: rest =>
          if looksLikeOption value then none
          else do readOptions? known (← add body value) rest
        | none, [] => none

/-! ### Values -/

/-- The value of an option, which may be missing, read in a way that may fail. -/
def optional? (given : Given) (name : String) (read : String → Option α) : Option (Option α) :=
  match given.lookup name with
  | none => some none
  | some value => (read value).map some

/-- The name of a file. -/
def file? (value : String) : Option String := if value.isEmpty then none else some value

def number? (value : String) : Option Nat := (Decimal.natural64 value).toOption

/-- A parameter of a request, up to its first equals sign and after it. -/
def parameter? (value : String) : Option (String × String) :=
  (Text.splitFirst? '=' value.toList).map fun (name, rest) =>
    (String.ofList name, String.ofList rest)

/-- The parameters of a request, in order. -/
def parameters? (given : Given) : Option (List (String × String)) :=
  (given.filter fun option => option.1 = repeatedOption).mapM fun option => parameter? option.2

/-- The values that are placed over the settings. -/
def overrides? (given : Given) : Option Settings.Overrides := do
  some {
    softLimit := ← optional? given "soft-limit" number?
    hardLimit := ← optional? given "hard-limit" number?
    root := given.lookup "root-variable"
    strategy := ← optional? given "strategy" (Settings.choice? Strategy.ofName?) }

/-- The command of a name with its options. -/
def command? (name : String) (given : Given) : Option Command := do
  let config ← (given.lookup "config").bind file?
  match name with
  | "compile" => some (.compile config (← given.lookup "endpoint") (← parameters? given))
  | "coalesce" =>
    some (.coalesce config (← given.lookup "endpoint") (given.lookup "view")
      (← (given.lookup "results").bind file?))
  | _ => some (.endpoints config)

/-- **What arguments ask for.** -/
def ofArguments? (arguments : List String) : Option Invocation := do
  let (early, rest) ← readOptions? settingOptions [] arguments
  match rest with
  | [] => none
  | name :: rest =>
    let (late, rest) ← readOptions? ((← commandOptions? name) ++ settingOptions) [] rest
    if !rest.isEmpty then none
    let _ ← optional? early "settings" file?
    let _ ← overrides? early
    let given := late ++ early
    let settingsFile ← optional? given "settings" file?
    some ⟨settingsFile, ← overrides? given, ← command? name given⟩

/-- The files that an invocation reads. -/
def files (i : Invocation) : List String :=
  i.settingsFile.toList ++
    match i.command with
    | .compile config _ _ | .endpoints config => [config]
    | .coalesce config _ _ results => [config, results]

end Invocation

end SparqlViews
