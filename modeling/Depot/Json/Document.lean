import Depot.Json.Parser
import Depot.Json.Printer
import Depot.Json.Record

/-!
Values that are stored as JSON documents.
-/
namespace Depot

/-- A type with a form in JSON. -/
class Document (α : Type) where
  /-- The document of a value. -/
  toJson : α → Json
  /-- The value of a document, if it has one. -/
  ofJson? : Json → Option α

namespace Document

variable {α : Type} [Document α]

/-- The value that a text spells. -/
def parse? (s : String) : Option α :=
  (Json.parse s).bind ofJson?

/-- The value that bytes spell. -/
def parseBytes? (b : Bytes) : Option α :=
  (Json.parseBytes b).bind ofJson?

/-- The value on one line. -/
def compact (a : α) : String :=
  (toJson a).compact

/-- The value with a field a line. -/
def pretty (a : α) : String :=
  (toJson a).pretty

instance : Document (List α) where
  toJson l := .array (l.map toJson)
  ofJson? j := j.items?.bind fun l => l.mapM ofJson?

end Document
end Depot
