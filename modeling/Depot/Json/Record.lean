import Depot.Json
import Depot.Dictionary

/-!
Records as documents. A record has named fields in a fixed order and may be written as an object,
where unknown names are passed over and a known name may stand once, or as an array, where the
fields follow each other by position. A field that may be absent has a reading of its own:
`optional` in an object only, `withDefault` in both forms.
-/
namespace Depot.Json

/-- The fields of a record as far as they were written. -/
structure Record where
  /-- Written as an array. -/
  byPosition : Bool
  fields : List (String × Json)

/-- The value of the one member called `name`: no answer when the name is given twice. -/
def fieldNamed (members : List (Option String × Json)) (name : String) :
    Option (Option (String × Json)) :=
  match members.filter fun m => m.1 = some name with
  | [] => some none
  | [m] => some (some (name, m.2))
  | _ => none

/-- The record with the given field names that a document is. -/
def record? (names : List String) : Json → Option Record
  | .object members =>
    -- a key that is no text spoils the object, known or not
    if members.all (·.1.isSome) then
      (names.mapM (fieldNamed members)).map fun fields => ⟨false, fields.filterMap id⟩
    else none
  | .array items =>
    if items.length ≤ names.length then some ⟨true, names.zip items⟩ else none
  | _ => none

namespace Record

/-- A field that has to be there. -/
def required {α : Type} (r : Record) (name : String) (read : Json → Option α) : Option α :=
  (r.fields.lookup name).bind read

/-- A field that may be `null`, and in an object may be left out. -/
def optional {α : Type} (r : Record) (name : String) (read : Json → Option α) :
    Option (Option α) :=
  match r.fields.lookup name with
  | some .null => some none
  | some v => (read v).map some
  | none => if r.byPosition then none else some none

/-- A field that stands for `default` when it is left out. -/
def withDefault {α : Type} (r : Record) (name : String) (default : α) (read : Json → Option α) :
    Option α :=
  match r.fields.lookup name with
  | some v => read v
  | none => some default

end Record

/-- The dictionary that a document is: an object whose values are all texts. -/
def dictionary? : Json → Option Dictionary
  | .object members =>
    (members.mapM fun (m : Option String × Json) =>
      m.1.bind fun k => m.2.text?.map fun v => (k, v)).map Dictionary.ofList
  | _ => none

/-- The document of a dictionary. -/
def ofDictionary (d : Dictionary) : Json :=
  .object (d.entries.map fun e => (some e.1, ofText e.2))

/-- The name that a document gives: a text, or an object whose one member has that key and `null`. -/
def choice? : Json → Option String
  | .string t => t
  | .object [(k, .null)] => k
  | _ => none

end Depot.Json
