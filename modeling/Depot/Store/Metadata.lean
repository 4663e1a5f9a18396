import Depot.Event

/-!
What the store knows of an image, and the index by which it is found.
-/
namespace Depot

/-- What is known of a stored image. -/
structure Metadata where
  id : String
  /-- The names that the image holds, in the order in which it got them. -/
  repoTags : List String
  digest : Option String
  created : Instant
  size : UInt64
  /-- The digests of the uncompressed layers, bottom first. -/
  layers : List String

instance : Document Metadata where
  toJson m := Json.ofFields [
    ("id", some (Json.ofText m.id)),
    ("repo_tags", some (Json.ofTexts m.repoTags)),
    ("digest", some (m.digest.elim .null Json.ofText)),
    ("created", some (Document.toJson m.created)),
    ("size", some (.integer m.size.toNat)),
    ("layers", some (Json.ofTexts m.layers))]
  ofJson? j := do
    let r ← j.record? ["id", "repo_tags", "digest", "created", "size", "layers"]
    let id ← r.required "id" Json.text?
    let repoTags ← r.withDefault "repo_tags" [] Json.texts?
    let digest ← r.optional "digest" Json.text?
    let created ← r.required "created" Document.ofJson?
    let size ← r.required "size" (Json.integer? 0 (UInt64.size - 1))
    let layers ← r.required "layers" Json.texts?
    some { id, repoTags, digest, created, size := UInt64.ofNat size.toNat, layers }

/-- The index: which image holds a name, and which image was last stored under a short id. -/
structure Index where
  tags : Dictionary
  shortIds : Dictionary

def Index.empty : Index := ⟨.empty, .empty⟩

instance : Document Index where
  toJson i := Json.ofFields [
    ("tags", some (Json.ofDictionary i.tags)),
    ("short_ids", some (Json.ofDictionary i.shortIds))]
  ofJson? j := do
    let r ← j.record? ["tags", "short_ids"]
    let tags ← r.required "tags" Json.dictionary?
    let shortIds ← r.required "short_ids" Json.dictionary?
    some { tags, shortIds }

end Depot
