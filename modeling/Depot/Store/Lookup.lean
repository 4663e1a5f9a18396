import Depot.Reference.Parser
import Depot.Store

/-!
Finding images. A text is tried in turn as a name in the index, as a name still to be completed, as
a short id, and as an id; the first that fits decides. With the image comes the name under which it
was found.
-/
namespace Depot
namespace Store

/-- The name that a text would have in the index. -/
def canonicalName? (text : String) : Option String :=
  match Reference.takeApart text with
  | .ok r => some r.canonicalName
  | .error _ => none

/-- The image that the index gives for a text, and the name that it was found under. -/
def findInIndex (i : Index) (text : String) : Option (String × String) :=
  match i.tags.get? text with
  | some id => some (id, text)
  | none =>
    match (canonicalName? text).bind fun name => (i.tags.get? name).map fun id => (id, name) with
    | some found => some found
    | none =>
      match i.shortIds.get? text with
      | some id => some (id, text)
      | none => if text ∈ i.shortIds.values then some (text, text) else none

/-- The text without the algorithm of a digest. -/
def bareId (text : String) : String := Digest.encoded text

def findById (s : Store) (d : Disk) (text : String) : Option (String × String) :=
  let id := bareId text
  if id ≠ "" ∧ '/' ∉ id.toList ∧ d.exists? (s.metadataFile id) then some (id, text) else none

/-- The image that a text denotes, and the name that it was found under. -/
def resolve (s : Store) (d : Disk) (text : String) : Option (String × String) :=
  match s.index d with
  -- an index that cannot be read hides the names, not the images
  | .error _ => s.findById d text
  | .ok i =>
    match findInIndex i text with
    | some found => some found
    | none => s.findById d text

def find (s : Store) (d : Disk) (text : String) : Option String :=
  (s.resolve d text).map Prod.fst

end Store

/-- Where a copy engine reads an image from: its id, and a name if it has one. -/
structure Source where
  id : String
  name : Option String
  deriving DecidableEq

def Source.render (s : Source) : String :=
  s.name.getD "" ++ "@" ++ s.id

/-- An image that was found in a store: what was known of it then. -/
structure LocalImage where
  metadata : Metadata
  store : Store

namespace LocalImage

def id (i : LocalImage) : String := i.metadata.id

/-- The source of the image, if it is still on the disk. -/
def source (i : LocalImage) (d : Disk) : Except Error Source :=
  if d.exists? (i.store.imageFolder i.id) then .ok ⟨i.id, i.metadata.repoTags.head?⟩
  else .error (.imageNotFound i.id)

/-- The names of the image that have a tag; all of them must be references. -/
def taggedNames (i : LocalImage) : Except Error (List Tagged) :=
  match i.metadata.repoTags.mapM Reference.parse with
  | .error e => .error (.reference e)
  | .ok references => .ok (references.filterMap Reference.tagged?)

end LocalImage

/-- The image that a text denotes, and the name that it was found under. -/
def Store.lookup (s : Store) (d : Disk) (text : String) : Except Error (LocalImage × String) :=
  match s.resolve d text with
  | none => .error (.imageNotFound text)
  | some (id, name) =>
    match s.metadata d id with
    | .error e => .error e
    | .ok m => .ok (⟨m, s⟩, name)

end Depot
