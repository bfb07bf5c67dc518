import SparqlViews.Document.Basic
import SparqlViews.Settings.Basic

/-! # Settings as values

* `Settings.toData`: settings as a record with all their fields.
-/

namespace SparqlViews

/-- **Settings as a value.** -/
def Settings.toData (s : Settings) : Data := .object [
  ("defaultSoftLimit", .option .nat s.softLimit),
  ("hardLimit", .option .nat s.hardLimit),
  ("rootVariable", .text s.root),
  ("pathLookup", .text s.lookup.name),
  ("defaultStrategy", .option (fun strategy => .text strategy.name) s.strategy)]

end SparqlViews
