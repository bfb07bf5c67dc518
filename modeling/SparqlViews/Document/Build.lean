import SparqlViews.Document.Basic
import SparqlViews.View.Store

/-! # Views made from documents

* `buildView`: the view of a list of definitions. Every property must be an IRI, every name legal
  and new among its siblings, and every nested item a definition, or there is no view.
* `Document.validate`, `Document.store`: the check of a document, and the store of its views.
-/

namespace SparqlViews

/-- The end of an IRI or a labelled name, after the last `#`, `/` or `:`. -/
def localName (prop : String) : String :=
  let opened := prop.toList.dropWhile (· = '<')
  let reversed := opened.reverse.dropWhile (· = '>')
  String.ofList (reversed.takeWhile fun c => c ≠ '#' && c ≠ '/' && c ≠ ':').reverse

/-- The error at the place of an entry. -/
def ViewError.inEntry (place : Place) : ViewError → ViewError
  | .malformed fault none => .malformed (.ofEntry fault) (some place)
  | e => e

/-- The property of a definition with its name. -/
def makeProperty (labels : Prefixes) (place : Place) (prop name : String) :
    Except ViewError Property :=
  match labels.expandOrAbsolute? prop with
  | none => .error (.malformed (.unknownIri prop) (some place))
  | some iri => (Property.make name iri).mapError (ViewError.inEntry place)

/-- The property of a definition with its settings. -/
def EntrySpec.property (labels : Prefixes) (place : Place) (spec : EntrySpec) :
    Except ViewError Property := do
  let p ← makeProperty labels place spec.prop (spec.name.getD (localName spec.prop))
  let expanded := fun s => (labels.expandOrAbsolute? s).getD s
  return { p with
    optional := spec.optional
    multi := spec.multi
    filterable := spec.filterable
    hidden := spec.hidden
    suppressId := spec.suppressId
    comment := spec.comment
    range := spec.range.map expanded
    valueBase := spec.valueBase.map expanded }

mutual

/-- The entry of a definition. -/
def Definition.entry (labels : Prefixes) (place : Place) : Definition → Except ViewError Entry
  | .short prop => do return ⟨← makeProperty labels place prop (localName prop), none⟩
  | .full spec nested => do
    let p ← spec.property labels place
    return ⟨p, ← nested.view labels place p.name⟩

/-- The view of what is nested in an entry. -/
def Nested.view (labels : Prefixes) (place : Place) (name : String) :
    Nested → Except ViewError (Option View)
  | .absent => .ok none
  | .notList _ => .error (.malformed .nestedNotList (some (.property place name)))
  | .badChild _ position cause =>
    .error (.malformed (.badChild position cause) (some (.nestedIn place name)))
  | .children _ definitions =>
    (buildFrom labels (.nestedIn place name) 1 .empty definitions).map some

/-- The view with the entries of definitions pushed in turn, counted from a position. -/
def buildFrom (labels : Prefixes) (place : Place) (position : Nat) (v : View) :
    List Definition → Except ViewError View
  | [] => .ok v
  | d :: rest => do
    let e ← d.entry labels (.entry place position)
    let v ← (v.push e).mapError (ViewError.inEntry (.entry place position))
    buildFrom labels place (position + 1) v rest

end

/-- **The view of a list of definitions.** -/
def buildView (labels : Prefixes) (place : Place) (definitions : List Definition) :
    Except ViewError View :=
  buildFrom labels place 1 .empty definitions

/-- The source of a named view. -/
def ViewDefinition.source (labels : Prefixes) (name : String) :
    ViewDefinition → Except ViewError ViewSource
  | .inline definitions => (buildView labels (.view name) definitions).map .tree
  | .reference target => .ok (.reference target)
  | .projection target paths => .ok (.projection target paths)

namespace Document

/-- The check of endpoints, those before it given by name. -/
def validateFrom (seen : List String) : List EndpointDefinition → Except ViewError Unit
  | [] => .ok ()
  | e :: rest =>
    if seen.contains e.name then .error (.malformed (.duplicateEndpoint e.name))
    else if e.view.isNone && e.views.isEmpty then
      .error (.malformed .endpointWithoutViews (some (.endpoint e.name)))
    else validateFrom (e.name :: seen) rest

/-- **The names of endpoints are distinct, and each has a view.** -/
def validate (d : Document) : Except ViewError Unit := validateFrom [] d.endpoints

/-- **The store of the named views.** -/
def store (d : Document) : Except ViewError ViewStore := do
  d.validate
  d.views.entries.foldlM (fun s (name, definition) => do
    let source ← definition.source d.prefixes name
    return (← s.register name source).2) { prefixes := d.prefixes }

end Document

end SparqlViews
