import SparqlViews.Document.Basic

/-! # Documents as values

* `Document.toData`: a document as a value, with all its settings.
-/

namespace SparqlViews

/-- What a definition says about its nested entries, as it was read. -/
def Nested.toData : Nested → Data
  | .absent => .null
  | .notList raw => raw
  | .badChild raw _ _ | .children raw _ => .list raw

def Definition.toData : Definition → Data
  | .short prop => .text prop
  | .full spec nested => .object [
      ("prop", .text spec.prop),
      ("name", .option .text spec.name),
      ("optional", .bool spec.optional),
      ("multi", .bool spec.multi),
      ("filterable", .bool spec.filterable),
      ("range", .option .text spec.range),
      ("nested", nested.toData),
      ("comment", .option .text spec.comment),
      ("valueBase", .option .text spec.valueBase),
      ("hide", .bool spec.hidden),
      ("suppressID", .bool spec.suppressId)]

def ViewDefinition.toData : ViewDefinition → Data
  | .inline definitions => .list (definitions.map Definition.toData)
  | .reference name => .object [("ref", .text name)]
  | .projection source paths =>
    .object [("projection", .text source), ("paths", .texts (paths.map Path.toDotted))]

def ViewRef.toData : ViewRef → Data
  | .named name => .text name
  | .inline definitions => .list (definitions.map Definition.toData)

/-- A table as a record. -/
def Table.toData (write : α → Data) (t : Table α) : Data :=
  .object (t.entries.map fun (name, a) => (name, write a))

def EndpointDefinition.toData (d : EndpointDefinition) : Data := .object [
  ("name", .text d.name),
  ("view", .option ViewRef.toData d.view),
  ("views", d.views.toData ViewRef.toData),
  ("baseQuery", .option .text d.base),
  ("query", .option .text d.template),
  ("limit", .option .nat d.limit),
  ("softLimit", .option .nat d.softLimit),
  ("strategy", .option (fun s => .text s.name) d.strategy),
  ("pathLookup", .option (fun l => .text l.name) d.lookup),
  ("comment", .option .text d.comment)]

/-- **A document as a value.** -/
def Document.toData (d : Document) : Data := .object [
  ("name", .option .text d.name),
  ("prefixes", d.labels.toData .text),
  ("views", d.views.toData ViewDefinition.toData),
  ("endpoints", .list (d.endpoints.map EndpointDefinition.toData))]

end SparqlViews
