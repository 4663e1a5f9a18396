import Depot.Archive.Entry
import Depot.Archive.Writer
import Depot.Store.Update
import Depot.Tar.Reader

/-!
Reading archives, and loading their images into a store. Only plain files count; of two with the same
name the later one does. Loading stores what it can up to the first thing that is missing, and
passes over names that are no references.
-/
namespace Depot.Archive

/-- The files of an archive, by name, later ones first. -/
abbrev Files := List (String × Bytes)

/-- A path without `./` before it, as often as that stands there. -/
def withoutDots : List Char → List Char
  | '.' :: '/' :: rest => withoutDots rest
  | cs => cs

/-- The name by which a member is asked for. -/
def memberName (name : Bytes) : String :=
  String.ofList (withoutDots (Bytes.lossyText name).toList)

def filesOf (members : List Tar.Member) : Files :=
  -- reversed, so that a look-up finds the later of two with one name
  ((members.filter Tar.Member.isFile).map fun m => (memberName m.name, m.data)).reverse

/-- The files of the archive at a path. -/
def readFiles (d : Disk) (path : String) : Except Error Files :=
  match d.read path with
  | .error e => .error (.disk e)
  | .ok b =>
    match Tar.decode b with
    | none => .error (.disk .damaged)
    | some members => .ok (filesOf members)

/-- What the manifest of an archive says. -/
def entriesOf (files : Files) : Except Error (List ArchiveEntry) :=
  match files.lookup manifestName with
  | none => .error (.copy .noManifest)
  | some b =>
    match Document.parseBytes? b with
    | none => .error .json
    | some entries => .ok entries

def readManifest (d : Disk) (path : String) : Except Error (List ArchiveEntry) :=
  match readFiles d path with
  | .error e => .error e
  | .ok files => entriesOf files

/-- A file that must be in the archive. -/
def member (files : Files) (name : String) : Except Error Bytes :=
  match files.lookup name with
  | some b => .ok b
  | none => .error (.copy (.missingMember name))

/-- Stores layers: their digests and their total size. -/
def loadLayers (s : Store) (files : Files) : List String → Act Host (List String × UInt64)
  | [] => pure ([], 0)
  | name :: names => do
    let data ← Act.ofExcept (member files name)
    let digest ← s.addLayer data
    let (digests, size) ← loadLayers s files names
    pure (digest :: digests, UInt64.ofNat data.length + size)

/-- The names that an image gets from what the manifest says: those that are references. -/
def namesOf (tags : List String) : List String :=
  tags.filterMap fun tag =>
    match Reference.parse tag with
    | .ok r => some r.canonicalName
    | .error _ => none

def loadEntry (s : Store) (files : Files) (entry : ArchiveEntry) : Act Host String := do
  let config ← Act.ofExcept (member files entry.config)
  let id := Digest.hexOf config
  -- the image is made known last, when all that it consists of is stored
  let (layers, size) ← loadLayers s files entry.layers
  s.saveConfig id config
  s.add id (namesOf entry.repoTags) (some (Digest.ofBytes config)) layers size
  pure id

def loadEntries (s : Store) (files : Files) : List ArchiveEntry → Act Host (List String)
  | [] => pure []
  | entry :: entries => do
    let id ← loadEntry s files entry
    let ids ← loadEntries s files entries
    pure (id :: ids)

/-- Loads the images of the archive at a path into a store: their ids, in the order of the
manifest. -/
def load (s : Store) (path : String) : Act Host (List String) := do
  let h ← Act.state
  let files ← Act.ofExcept (readFiles h.disk path)
  let entries ← Act.ofExcept (entriesOf files)
  loadEntries s files entries

end Depot.Archive
