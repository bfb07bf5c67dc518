import SparqlViews.Query.Builder

/-! # Settings

The defaults that every endpoint takes where its own definition is silent.

* `Settings`: the limits, the root variable, the lookup of names, and the strategy.
* `Settings.problems`: what is wrong with settings, in ascending order of the fields it is reported
  under. Both limits are compared only when every field is right by itself.
* `Settings.merge`: settings with other values placed over them.
-/

namespace SparqlViews

/-- **The defaults of all endpoints.** -/
structure Settings where
  /-- The limit of a request that names none. -/
  softLimit : Option Nat := some 100
  /-- The greatest limit of any request. -/
  hardLimit : Option Nat := some 10000
  /-- The variable of the entity. -/
  root : String := defaultRoot
  lookup : Lookup := .breadthFirst
  /-- None leaves the choice to the view. -/
  strategy : Option Strategy := none
  deriving DecidableEq, Repr

/-- **What is wrong with settings.** -/
inductive SettingsProblem where
  | softAboveHard (soft hard : Nat)
  | softLimitZero
  | hardLimitZero
  | rootLength
  | rootName
  deriving DecidableEq, Repr

namespace SettingsProblem

/-- The field that a problem is reported under. -/
def field : SettingsProblem → String
  | .softAboveHard _ _ => "__all__"
  | .softLimitZero => "default_soft_limit"
  | .hardLimitZero => "hard_limit"
  | .rootLength | .rootName => "root_variable"

def code : SettingsProblem → String
  | .softAboveHard _ _ => "limits"
  | .softLimitZero | .hardLimitZero => "range"
  | .rootLength => "length"
  | .rootName => "root_variable"

def message : SettingsProblem → String
  | .softAboveHard soft hard =>
    "Soft limit " ++ toString soft ++ " exceeds hard limit " ++ toString hard
  | .softLimitZero => "Soft limit must be at least 1"
  | .hardLimitZero => "Hard limit must be at least 1"
  | .rootLength => "Root variable must be 1-64 characters"
  | .rootName => "Root variable must match [A-Za-z][A-Za-z0-9_]*"

/-- The problems of one field, after its name. -/
def fieldText (field : String) (problems : List SettingsProblem) : String :=
  field ++ ": " ++ Text.join ", " (problems.map message)

/-- All problems, with a line for each field. -/
def summary (problems : List SettingsProblem) : String :=
  Text.join "\n" ((problems.map field).eraseDups.map fun name =>
    fieldText name (problems.filter fun p => p.field = name))

end SettingsProblem

namespace Settings

/-- The limits of a request where an endpoint has none. -/
def limits (s : Settings) : Limits := ⟨s.softLimit, s.hardLimit⟩

/-- The problems of single fields. -/
def fieldProblems (s : Settings) : List SettingsProblem :=
  (if s.softLimit = some 0 then [.softLimitZero] else []) ++
    (if s.hardLimit = some 0 then [.hardLimitZero] else []) ++
    (if 1 ≤ s.root.length ∧ s.root.length ≤ 64 then [] else [.rootLength]) ++
    (if Naming.isShortName s.root then [] else [.rootName])

/-- The problem of the limits together. -/
def limitProblems (s : Settings) : List SettingsProblem :=
  match s.softLimit, s.hardLimit with
  | some soft, some hard => if hard < soft then [.softAboveHard soft hard] else []
  | _, _ => []

/-- **What is wrong with settings.** -/
def problems (s : Settings) : List SettingsProblem :=
  if s.fieldProblems.isEmpty then s.limitProblems else s.fieldProblems

/-- Values that are placed over settings. -/
structure Overrides where
  softLimit : Option Nat := none
  hardLimit : Option Nat := none
  root : Option String := none
  strategy : Option Strategy := none
  deriving DecidableEq, Repr

/-- The settings with other values placed over them. -/
def merge (s : Settings) (o : Overrides) : Settings := {
  s with
  softLimit := o.softLimit.or s.softLimit
  hardLimit := o.hardLimit.or s.hardLimit
  root := o.root.getD s.root
  strategy := o.strategy.or s.strategy }

end Settings

end SparqlViews
