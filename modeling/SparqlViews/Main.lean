import SparqlViews.CommandLine.Outcome

/-! # The command

Reads the files and the variables that an invocation needs, and writes what it answers.
-/

namespace SparqlViews

/-- The text of a file, if it can be read. -/
def readFile? (path : String) : IO (Option String) := do
  try return some (← IO.FS.readFile path)
  catch _ => return none

/-- The variables of the environment that hold settings. -/
def settingVariables : List String :=
  ["VIEWGRAPH_SOFT_LIMIT", "VIEWGRAPH_HARD_LIMIT", "VIEWGRAPH_ROOT_VARIABLE",
    "VIEWGRAPH_PATH_LOOKUP", "VIEWGRAPH_STRATEGY"]

end SparqlViews

open SparqlViews

def main (arguments : List String) : IO UInt32 := do
  let paths := ((Invocation.ofArguments? arguments).map Invocation.files).getD []
  let files ← paths.mapM fun path => return (path, ← readFile? path)
  let vars ← settingVariables.mapM fun name => return (name, ← IO.getEnv name)
  let s : Surroundings := {
    file := fun path => (files.lookup path).join
    environment := fun name => (vars.lookup name).join }
  let outcome := Outcome.ofArguments s arguments
  (← IO.getStdout).putStr outcome.output
  (← IO.getStderr).putStr outcome.errors
  return outcome.exit.toUInt32
