import Depot.Archive.Entry
import Depot.Progress
import Depot.Tar.Writer

/-!
Writing an archive of one image: a tar file with the layers, the config and a manifest. It is written
under another name beside its path and then moved there, so that the path never holds half an
archive; when writing or moving fails, the file with the other name is removed.
-/
namespace Depot.Archive

/-- The name of the member that lists the images of an archive. -/
def manifestName : String := "manifest.json"

def configName (config : Blob) : String :=
  config.fileName ++ ".json"

def layerName (layer : Blob) : String :=
  layer.fileName ++ "/layer.tar"

/-- What the manifest says of an image. -/
def entryOf (config : Blob) (layers : List Blob) (tags : List String) : ArchiveEntry :=
  ⟨configName config, tags, layers.map layerName⟩

/-- The manifest of an archive of one image. -/
def manifestOf (config : Blob) (layers : List Blob) (tags : List String) : Bytes :=
  Bytes.ofText (Document.compact [entryOf config layers tags])

def file (name : String) (data : Bytes) : Tar.File :=
  ⟨Bytes.ofText name, data⟩

def encode (config : Blob) (layers : List Blob) (tags : List String) : Bytes :=
  Tar.encode (layers.map (fun l => file (layerName l) l.data) ++
    [file (configName config) config.data, file manifestName (manifestOf config layers tags)])

/-- The name under which an archive is written at first. -/
def temporaryPath (path token : String) : String :=
  Path.withFileName path ("." ++ (Path.fileName? path).getD "archive" ++ "." ++ token ++ ".tmp")

/-- Writes layers at the end of a tar file. -/
def writeLayers (path : String) (quiet : Bool) : List Blob → Act Host Unit
  | [] => pure ()
  | layer :: layers => do
    Host.append path (Tar.member (file (layerName layer) layer.data))
    Progress.copied quiet layer false
    writeLayers path quiet layers

/-- Writes an archive member by member. -/
def writeMembers (path : String) (config : Blob) (layers : List Blob) (tags : List String)
    (quiet : Bool) : Act Host Unit := do
  Host.write path []
  writeLayers path quiet layers
  Host.append path (Tar.member (file (configName config) config.data))
  Host.append path (Tar.member (file manifestName (manifestOf config layers tags)))
  Host.append path Tar.ending
  Progress.manifest quiet

/-- Makes the folder in which a path lies. -/
def makeFolderOf (path : String) : Act Host Unit :=
  match Path.parent? path with
  | some folder => if folder = "" then pure () else Host.makeFolders folder
  | none => pure ()

/-- Writes an archive of one image. -/
def write (path : String) (config : Blob) (layers : List Blob) (tags : List String)
    (quiet : Bool) : Act Host Unit := do
  makeFolderOf path
  let token ← Host.token
  let temporary := temporaryPath path token
  let written ← Act.attempt do
    writeMembers temporary config layers tags quiet
    Host.alter (·.moveFile temporary path)
  match written with
  | .ok () => pure ()
  | .error e => do
    -- what is told is why the writing failed, whether or not the file goes away
    let _ ← (Host.alter (·.removeFile temporary)).attempt
    Act.fail e

end Depot.Archive
