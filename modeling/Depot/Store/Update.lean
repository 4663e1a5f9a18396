import Depot.Reference.Parser
import Depot.Store

/-!
Changing the store: storing images and layers, naming images and taking names away. A name belongs
to one image at a time, so giving it to an image takes it from the one that held it. What is known of
the images is written before the index.
-/
namespace Depot
namespace Store

def prepare (s : Store) : Act Host Unit := do
  Host.makeFolders s.imagesFolder
  Host.makeFolders s.layersFolder

def saveMetadata (s : Store) (m : Metadata) : Act Host Unit :=
  Host.write (s.metadataFile m.id) (Bytes.ofText (Document.pretty m))

def saveIndex (s : Store) (i : Index) : Act Host Unit :=
  Host.write s.indexFile (Bytes.ofText (Document.pretty i))

def saveConfig (s : Store) (id : String) (config : Bytes) : Act Host Unit := do
  Host.makeFolders (s.imageFolder id)
  Host.write (s.configFile id) config

/-! ### Names -/

/-- Takes a name off the list of an image, if what is known of the image can be read. -/
def releaseName (s : Store) (id name : String) : Act Host Unit := fun h =>
  match s.metadata h.disk id with
  | .error _ => (.ok (), h)
  | .ok m => s.saveMetadata { m with repoTags := m.repoTags.filter (· ≠ name) } h

/-- Puts a name on the list of an image, at the end, unless it is there. -/
def claimName (s : Store) (m : Metadata) (name : String) : Act Host Unit :=
  if name ∈ m.repoTags then pure ()
  else s.saveMetadata { m with repoTags := m.repoTags ++ [name] }

/-- Names an image. The image that held the name before loses it. -/
def tag (s : Store) (id : String) (r : Reference) : Act Host Unit := do
  let h ← Act.state
  let name := r.canonicalName
  let i := s.indexOrEmpty h.disk
  match i.tags.get? name with
  | some holder => if holder ≠ id then s.releaseName holder name
  | none => pure ()
  -- the index is as it was: only the lists of names have been changed so far
  let h ← Act.state
  let m ← Act.ofExcept (s.metadata h.disk id)
  s.claimName m name
  s.saveIndex { i with tags := i.tags.insert name id }

/-- Takes a name from the image that holds it. -/
def untag (s : Store) (r : Reference) : Act Host Unit := do
  let h ← Act.state
  let name := r.canonicalName
  let i := s.indexOrEmpty h.disk
  match i.tags.get? name with
  | none => Act.fail (.imageNotFound name)
  | some id =>
    let m ← Act.ofExcept (s.metadata h.disk id)
    s.saveMetadata { m with repoTags := m.repoTags.filter (· ≠ name) }
    s.saveIndex { i with tags := i.tags.erase name }

/-! ### Images -/

/-- The first `limit` bytes of a text as a text, if no character is divided. -/
def bytesBefore? (limit : Nat) : List Char → Option (List Char)
  | [] => some []
  | c :: cs =>
    if limit = 0 then some []
    else if c.utf8Size ≤ limit then (bytesBefore? (limit - c.utf8Size) cs).map (c :: ·)
    else none

/-- The short id that the index files an image under: the first twelve bytes of its id. -/
def indexedId? (id : String) : Option String :=
  (bytesBefore? 12 id.toList).map String.ofList

/-- Names an image with each of some texts in turn. -/
def tagAll (s : Store) (id : String) : List String → Act Host Unit
  | [] => pure ()
  | name :: names => do
    let r ← Act.ofExcept ((Reference.parse name).mapError .reference)
    s.tag id r
    s.tagAll id names

/-- Stores what is known of an image and names it. An image that is stored again keeps the names it
has and the time at which it was first stored. -/
def add (s : Store) (id : String) (names : List String) (digest : Option String)
    (layers : List String) (size : UInt64) : Act Host Unit := do
  Host.makeFolders (s.imageFolder id)
  let h ← Act.state
  let known := (s.metadata h.disk id).toOption
  let created ← match known with
    | some m => pure m.created
    | none => Host.now
  -- the new names come in at the end, one by one, as each is taken from its holder
  let repoTags := (known.map Metadata.repoTags).getD []
  s.saveMetadata { id, repoTags, digest, created, size, layers }
  let h ← Act.state
  let i := s.indexOrEmpty h.disk
  match indexedId? id with
  | none => Act.fail (.dividedCharacter id)
  | some short =>
    s.saveIndex { i with shortIds := i.shortIds.insert short id }
    s.tagAll id names

/-! ### Layers -/

/-- Stores a layer under its digest, unless it is there. -/
def addLayer (s : Store) (data : Bytes) : Act Host String := do
  let h ← Act.state
  let hex := Digest.hexOf data
  if s.hasLayer h.disk hex then pure ()
  else
    Host.makeFolders (s.layerFolder hex)
    Host.write (s.layerFile hex) data
  pure (Digest.ofBytes data)

def removeLayer (s : Store) (digest : String) : Act Host Unit := do
  let h ← Act.state
  let folder := s.layerFolder (Digest.encoded digest)
  if h.disk.exists? folder then Host.alterPartly (·.removeFolder folder) else pure ()

end Store
end Depot
