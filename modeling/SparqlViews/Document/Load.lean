import SparqlViews.Json.Reader
import SparqlViews.Document.Reader
import SparqlViews.Yaml.Reader

/-! # Documents read from text

* `Document.ofJson`, `Document.ofYaml`: the document that a text writes.
* `Document.ofFile`: the document of a file, whose text may be written in either format, since JSON
  text is YAML text too.
-/

namespace SparqlViews

/-- What is said about a file that is not there. -/
def missingFileText : String := "No such file or directory (os error 2)"

namespace Document

/-- The document of a source, if a text is one. -/
def ofSource (s : Option Source) : Except ViewError Document :=
  match s.bind fun s => s.read? read with
  | some d => .ok d
  | none => .error .unparsable

/-- **The document of a JSON text.** -/
def ofJson (text : String) : Except ViewError Document := ofSource (Json.read? text)

/-- **The document of a YAML text.** -/
def ofYaml (text : String) : Except ViewError Document := ofSource (Yaml.read? text)

/-- The document of a file, given by its text if it is there. -/
def ofFile : Option String → Except ViewError Document
  | none => .error (.unreadable missingFileText)
  | some text => ofYaml text

end Document

end SparqlViews
