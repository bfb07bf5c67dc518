import SparqlViews.Document.Load
import SparqlViews.Settings.Basic

/-! # Settings read from outside

* `Settings.ofText`: the settings of a YAML text. A field that is missing keeps its default.
* `Settings.ofEnvironment`: the settings of variables of the environment.
* `Settings.checked`: settings without a problem. All settings from outside are checked.
-/

namespace SparqlViews

/-- Why settings cannot be read. -/
inductive SettingsError where
  /-- The file is not there. -/
  | missingFile
  /-- The text of a file is not that of settings. -/
  | unparsable (text : String)
  | badNumber (variableName value : String) (cause : Decimal.NaturalError)
  | badChoice (variableName value : String)
  | invalid (problems : List SettingsProblem)
  deriving DecidableEq, Repr

namespace SettingsError

/-- The cause beneath an error, where it has one of its own. -/
def cause? : SettingsError → Option String
  | .missingFile => some missingFileText
  | .unparsable _ | .badChoice _ _ => none
  | .badNumber _ _ cause => some cause.message
  | .invalid problems => some (SettingsProblem.summary problems)

/-- What cannot be read, and its value. -/
def parseText (field value : String) (cause : Option String) : String :=
  "Parse error for " ++ field ++ ": " ++ value ++ " - " ++ cause.getD "unknown value"

def message (e : SettingsError) : String :=
  match e with
  | .missingFile => parseText "yaml_file" "file read failed" e.cause?
  | .unparsable text => parseText "yaml_content" text e.cause?
  | .badNumber name value _ | .badChoice name value => parseText name value e.cause?
  | .invalid problems => "Validation error: " ++ SettingsProblem.summary problems

end SettingsError

namespace Settings

/-- **Settings without a problem.** -/
def checked (s : Settings) : Except SettingsError Settings :=
  if s.problems.isEmpty then .ok s else .error (.invalid s.problems)

/-- The settings with others placed over them, if they have no problem. -/
def mergeChecked (s : Settings) (o : Overrides) : Except SettingsError Settings :=
  (s.merge o).checked

/-! ### From a text -/

def fields : Fields :=
  [("defaultSoftLimit", []), ("hardLimit", []), ("rootVariable", []), ("pathLookup", []),
    ("defaultStrategy", [])]

/-- The settings of a source, unchecked. -/
def read (p : Part) : Reading Settings := do
  let slots ← p.slots fields false
  let defaults : Settings := {}
  let limit := Part.option Part.natural
  return {
    softLimit := ← Part.slotOr slots "defaultSoftLimit" limit defaults.softLimit
    hardLimit := ← Part.slotOr slots "hardLimit" limit defaults.hardLimit
    root := ← Part.slotOr slots "rootVariable" Part.text defaults.root
    lookup := ← Part.slotOr slots "pathLookup" (Part.choice Lookup.ofName?) defaults.lookup
    strategy := ← Part.slotOr slots "defaultStrategy" (Part.option (Part.choice Strategy.ofName?))
      defaults.strategy }

/-- **The settings of a YAML text.** -/
def ofText (text : String) : Except SettingsError Settings :=
  match (Yaml.read? text).bind fun source => source.read? read with
  | some s => s.checked
  | none => .error (.unparsable text)

/-- The settings of a file, given by its text if it is there. -/
def ofFile : Option String → Except SettingsError Settings
  | none => .error .missingFile
  | some text => ofText text

/-! ### From the environment -/

/-- One of several names, written as a YAML text. -/
def choice? (ofName? : String → Option α) (text : String) : Option α :=
  (Yaml.read? text).bind fun source => source.read? (Part.choice ofName?)

/-- The number of a variable. -/
def variableNumber (env : String → Option String) (name : String) :
    Except SettingsError (Option Nat) :=
  match env name with
  | none => .ok none
  | some value =>
    match Decimal.natural64 value with
    | .ok n => .ok (some n)
    | .error cause => .error (.badNumber name value cause)

/-- The choice of a variable. -/
def variableChoice (env : String → Option String) (ofName? : String → Option α) (name : String) :
    Except SettingsError (Option α) :=
  match env name with
  | none => .ok none
  | some value =>
    match choice? ofName? value with
    | some a => .ok (some a)
    | none => .error (.badChoice name value)

/-- The text of the variable of the strategy that leaves the choice to the view. -/
def automaticText : String := "auto"

/-- The strategy of its variable. -/
def variableStrategy (env : String → Option String) : Except SettingsError (Option Strategy) :=
  let name := "VIEWGRAPH_STRATEGY"
  if env name = some automaticText then .ok none else variableChoice env Strategy.ofName? name

/-- **The settings of the environment.** -/
def ofEnvironment (env : String → Option String) : Except SettingsError Settings := do
  let defaults : Settings := {}
  let soft ← variableNumber env "VIEWGRAPH_SOFT_LIMIT"
  let hard ← variableNumber env "VIEWGRAPH_HARD_LIMIT"
  let lookup ← variableChoice env Lookup.ofName? "VIEWGRAPH_PATH_LOOKUP"
  let strategy ← variableStrategy env
  checked {
    softLimit := soft.or defaults.softLimit
    hardLimit := hard.or defaults.hardLimit
    root := (env "VIEWGRAPH_ROOT_VARIABLE").getD defaults.root
    lookup := lookup.getD defaults.lookup
    strategy }

end Settings

end SparqlViews
