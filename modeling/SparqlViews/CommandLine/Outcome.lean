import SparqlViews.CommandLine.Arguments
import SparqlViews.Endpoint.Catalog
import SparqlViews.Json.Printer
import SparqlViews.Result.Document

/-! # What a command answers

A command is run over the texts of its files and the variables of its environment.

* `Failure`: an error as a list of what went wrong, from the outside in, with its text.
* `Invocation.run`: the text that a command writes.
* `Outcome.ofArguments`: the exit code and both outputs for a list of arguments.
-/

namespace SparqlViews

/-- **Why a command fails**: what it was doing, and the causes below that. -/
abbrev Failure := List String

namespace Failure

def text (f : Failure) : String := "Error: " ++ Text.join ": " f ++ "\n"

/-- Wrong settings; the cause is told once more after the error. -/
def ofSettings (e : SettingsError) : Failure := e.message :: e.cause?.toList

end Failure

/-- What a command is run over. -/
structure Surroundings where
  /-- The text of a file, if it is there. -/
  file : String → Option String
  /-- The value of a variable, if it is set. -/
  environment : String → Option String

/-- The result with a context in front of its failure. -/
def inContext (context : String) (r : Except Failure α) : Except Failure α :=
  r.mapError fun f => context :: f

namespace Surroundings

/-- The settings of an invocation. -/
def settings (s : Surroundings) (i : Invocation) : Except Failure Settings := do
  let base ← match i.settingsFile with
    | some path =>
      inContext ("reading settings " ++ path)
        ((Settings.ofFile (s.file path)).mapError Failure.ofSettings)
    | none =>
      inContext "reading VIEWGRAPH_* settings"
        ((Settings.ofEnvironment s.environment).mapError Failure.ofSettings)
  inContext "invalid settings" ((base.mergeChecked i.overrides).mapError Failure.ofSettings)

/-- The catalog of a configuration file. -/
def catalog (s : Surroundings) (settings : Settings) (path : String) : Except Failure Catalog :=
  inContext ("loading " ++ path)
    (((Document.ofFile (s.file path)).bind (Catalog.ofDocument settings)).mapError fun e =>
      [e.message])

/-- The rows of a file of results. -/
def rows (s : Surroundings) (path : String) : Except Failure RowSource :=
  let source : Except SourceError RowSource :=
    match s.file path with
    | some text => ResultSet.source text
    | none => .error (.io (path ++ ": " ++ missingFileText))
  source.mapError fun e => [e.message]

end Surroundings

/-- The endpoint of a name. -/
def Catalog.find (c : Catalog) (name : String) : Except Failure Endpoint :=
  match c.get? name with
  | some e => .ok e
  | none => .error ["no endpoint named `" ++ name ++ "`"]

/-- A line for each tree of a stream. -/
def ResultStream.lines (stream : ResultStream) : Except Failure String := do
  let lines ← stream.all.1.mapM fun answer =>
    match answer with
    | .ok tree => .ok (Json.print tree.toData ++ "\n")
    | .error e@(.aborted source) => .error ["coalescing results", e.message, source.message]
  return String.join lines

/-- The line of an endpoint in a list. -/
def Endpoint.line (e : Endpoint) : String :=
  match e.comment with
  | some comment => e.name ++ "\t" ++ comment ++ "\n"
  | none => e.name ++ "\n"

/-- **The text that a command writes.** -/
def Command.run (s : Surroundings) (settings : Settings) : Command → Except Failure String
  | .compile config name parameters => do
    let c ← s.catalog settings config
    let e ← c.find name
    inContext ("compiling request for `" ++ name ++ "`")
      ((e.compile c.store parameters).1.mapError fun e => [e.message])
  | .coalesce config name view results => do
    let c ← s.catalog settings config
    let e ← c.find name
    let source ← s.rows results
    let stream ← (e.results c.store view source).1.mapError fun e => [e.message]
    stream.lines
  | .endpoints config => do
    let c ← s.catalog settings config
    if c.names.isEmpty then throw [config ++ " defines no endpoints"]
    return String.join (c.endpoints.values.map Endpoint.line)

/-- **The text that an invocation writes.** -/
def Invocation.run (s : Surroundings) (i : Invocation) : Except Failure String := do
  i.command.run s (← s.settings i)

/-- **What a command answers.** -/
structure Outcome where
  exit : Nat
  output : String := ""
  errors : String := ""
  deriving DecidableEq, Repr

namespace Outcome

def usage : String :=
  "usage: compile --config FILE --endpoint NAME [--param NAME=VALUE]...\n" ++
    "       coalesce --config FILE --endpoint NAME [--view NAME] --results FILE\n" ++
    "       endpoints --config FILE\n" ++
    "settings: --settings FILE --soft-limit N --hard-limit N --root-variable NAME --strategy NAME\n"

/-- The outcome of an invocation. -/
def ofInvocation (s : Surroundings) (i : Invocation) : Outcome :=
  match i.run s with
  | .ok output => { exit := 0, output }
  | .error f => { exit := 1, errors := f.text }

/-- **The outcome of arguments.** -/
def ofArguments (s : Surroundings) (arguments : List String) : Outcome :=
  match Invocation.ofArguments? arguments with
  | some i => ofInvocation s i
  | none => { exit := 2, errors := usage }

end Outcome

end SparqlViews
