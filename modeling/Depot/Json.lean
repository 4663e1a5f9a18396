/-!
JSON documents as trees. Two things that the grammar admits have no value of their own here: a
number that is not written as an integer, and a string literal that denotes no text because it
holds an unpaired surrogate or bytes that are no character. They may stand where nobody reads them.
-/
namespace Depot

/-- A JSON document. -/
inductive Json where
  | null
  | bool (b : Bool)
  | integer (n : Int)
  /-- A number with a fraction or an exponent, or `-0`. -/
  | fractional
  /-- A string literal, `none` when it denotes no text. -/
  | string (text : Option String)
  | array (items : List Json)
  /-- The members in the order in which they are written; a key may occur twice. -/
  | object (members : List (Option String × Json))

namespace Json

def ofText (s : String) : Json :=
  .string (some s)

def ofTexts (l : List String) : Json :=
  .array (l.map ofText)

/-- The document of fields under plain names, without those that have no value. -/
def ofFields (fields : List (String × Option Json)) : Json :=
  .object (fields.filterMap fun f => f.2.map fun v => (some f.1, v))

def text? : Json → Option String
  | .string t => t
  | _ => none

def items? : Json → Option (List Json)
  | .array l => some l
  | _ => none

/-- The list of texts that a document is. -/
def texts? (j : Json) : Option (List String) :=
  j.items?.bind fun l => l.mapM text?

/-- The integer that a document is, if it lies between `lo` and `hi`. -/
def integer? (lo hi : Int) : Json → Option Int
  | .integer n => if lo ≤ n ∧ n ≤ hi then some n else none
  | _ => none

@[simp] theorem text?_ofText (s : String) : (ofText s).text? = some s := rfl

@[simp] theorem texts?_ofTexts (l : List String) : (ofTexts l).texts? = some l := by
  simp only [ofTexts, texts?, items?, Option.bind_some, List.mapM_map]
  induction l with
  | nil => rfl
  | cons s l ih => simp_all [List.mapM_cons, ofText, text?]

end Json
end Depot
