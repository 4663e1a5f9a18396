import Depot.Json.Document
import Depot.Time.Rfc3339

/-!
Events: the record that an image was pushed, made when the push began.
-/
namespace Depot

instance : Document Instant where
  toJson t := Json.ofText t.render
  ofJson? j := j.text?.bind Instant.parse?

/-- A push of the image `id` to the destination that was given as `name`. -/
structure Event where
  id : String
  name : String
  time : Instant

/-- The kind of every event. -/
def Event.kind : String := "push"

instance : Document Event where
  toJson e := Json.ofFields [
    ("id", some (Json.ofText e.id)),
    ("name", some (Json.ofText e.name)),
    ("time", some (Document.toJson e.time)),
    ("type", some (Json.ofText Event.kind))]
  ofJson? j := do
    let r ← j.record? ["id", "name", "time", "type"]
    let id ← r.required "id" Json.text?
    let name ← r.required "name" Json.text?
    let time ← r.required "time" Document.ofJson?
    let kind ← r.required "type" Json.choice?
    if kind = Event.kind then some { id, name, time } else none

end Depot
