/-! # What can be wrong with a view

* `Fault`: why a view or its document is malformed; `Place`: where in a document.
* `ViewError`: a malformed view, a name that a view or a store does not know, or a document that
  cannot be read. `ViewError.isRequestError` tells the errors that a request causes.
-/

namespace SparqlViews

/-- A place in a document of views and endpoints. -/
inductive Place where
  | view (name : String)
  | endpoint (name : String)
  | endpointView (endpoint choice : String)
  | projection (view source : String)
  | entry (outer : Place) (position : Nat)
  | nestedIn (outer : Place) (name : String)
  | property (outer : Place) (name : String)
  deriving DecidableEq, Repr

def Place.text : Place → String
  | .view name => "view `" ++ name ++ "`"
  | .endpoint name => "endpoint `" ++ name ++ "`"
  | .endpointView owner choice => "endpoint `" ++ owner ++ "` view `" ++ choice ++ "`"
  | .projection name source => "projection `" ++ name ++ "` of view `" ++ source ++ "`"
  | .entry outer position => outer.text ++ ", entry " ++ toString position
  | .nestedIn outer name => outer.text ++ ", nested in `" ++ name ++ "`"
  | .property outer name => outer.text ++ ", property `" ++ name ++ "`"

/-- **Why a view is malformed.** -/
inductive Fault where
  | illegalName (name : String)
  | duplicateName (name : String)
  | rootCollision (name : String)
  | unknownIri (prop : String)
  | nestedNotList
  | badChild (position : Nat) (cause : String)
  | duplicateEndpoint (name : String)
  | endpointWithoutViews
  | endpointWithoutView
  | templateNotFlat
  | templateWithoutMarker (marker : String)
  | missingPath (path : String)
  /-- A fault of one entry, reported with the place of the entry. -/
  | ofEntry (fault : Fault)
  deriving DecidableEq, Repr

def malformedText : String := "Malformed view specification: "

def pathNotFoundText (path : String) : String := "No view entry at path `" ++ path ++ "`"

def Fault.message : Fault → String
  | .illegalName name => "short name `" ++ name ++ "` must match [A-Za-z][A-Za-z0-9_]*"
  | .duplicateName name => "duplicate short name `" ++ name ++ "`"
  | .rootCollision name => "top-level short name `" ++ name ++ "` collides with the root variable"
  | .unknownIri prop => "cannot expand `" ++ prop ++ "` to an IRI (unknown prefix?)"
  | .nestedNotList => "`nested` must be an array of property definitions"
  | .badChild position cause => "nested entry " ++ toString position ++ ": " ++ cause
  | .duplicateEndpoint name => "duplicate endpoint name `" ++ name ++ "`"
  | .endpointWithoutViews => "endpoint has no `view` or `views`"
  | .endpointWithoutView => "endpoint has no view"
  | .templateNotFlat => "a `query` template requires the flat strategy"
  | .templateWithoutMarker marker => "`query` template lacks the `" ++ marker ++ "` marker"
  | .missingPath path => pathNotFoundText path
  | .ofEntry fault => malformedText ++ fault.message

/-- **What can be wrong with a view**, its document, or a request for it. -/
inductive ViewError where
  | malformed (fault : Fault) (place : Option Place := none)
  | pathNotFound (path : String)
  | unknownProperty (iri : String)
  | ambiguousName (name : String) (candidates : List String)
  | notFilterable (path : String)
  | viewNotFound (name : String)
  | cyclicReference (name : String)
  | unreadable (cause : String)
  | unparsable
  deriving DecidableEq, Repr

namespace ViewError

def message : ViewError → String
  | .malformed fault none => malformedText ++ fault.message
  | .malformed fault (some place) =>
    malformedText ++ fault.message ++ "\n  Context: " ++ place.text
  | .pathNotFound path => pathNotFoundText path
  | .unknownProperty iri => "No view entry for property <" ++ iri ++ ">"
  | .ambiguousName name candidates =>
    "Short name `" ++ name ++ "` is ambiguous, it matches: " ++ ", ".intercalate candidates
  | .notFilterable path => "Property `" ++ path ++ "` is not filterable"
  | .viewNotFound name => "No view named `" ++ name ++ "`"
  | .cyclicReference name => "View `" ++ name ++ "` is part of a reference cycle"
  | .unreadable cause => "Failed to read configuration file: " ++ cause
  | .unparsable => "Failed to parse configuration"

/-- The error is caused by what a request names, not by a document. -/
def isRequestError : ViewError → Bool
  | .pathNotFound _ | .unknownProperty _ | .ambiguousName _ _ | .notFilterable _ => true
  | _ => false

end ViewError

end SparqlViews
