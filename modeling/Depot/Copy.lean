import Depot.Archive.Writer
import Depot.Destination
import Depot.Folder.Writer
import Depot.Registry.Session
import Depot.Store.Lookup

/-!
Copying a stored image to a destination. The image is read as a whole before anything is written:
what is known of it, its config, and its layers, all of which must be there. Layers go uncompressed
into archives; elsewhere the caller decides.
-/
namespace Depot

/-- How a copy is made. -/
structure CopyOptions where
  /-- Compress layers for registries and folders. -/
  compressLayers : Bool
  /-- Leave out signatures. Stored images have none. -/
  removeSignatures : Bool
  /-- Tell nothing of the progress. -/
  quiet : Bool
  deriving DecidableEq

/-- How a copy is made unless something else is asked for. -/
def CopyOptions.default : CopyOptions := ⟨true, false, false⟩

/-- One copy: from where, to where, how, and under which names in an archive. -/
structure CopyJob where
  source : Source
  destination : Destination
  options : CopyOptions
  archiveTags : List Tagged
  deriving DecidableEq

/-- A stored image that is complete: its config, and where its layers lie, bottom first. -/
structure CompleteImage where
  config : Bytes
  layers : List String

/-- Where some layers lie; all must be in the store. -/
def Store.layerFiles (s : Store) (d : Disk) (id : String) : List String → Except Error (List String)
  | [] => .ok []
  | digest :: digests =>
    if s.hasLayer d digest then
      (s.layerFiles d id digests).map (s.layerFile (Digest.encoded digest) :: ·)
    else .error (.copy (.missingLayer digest id))

/-- A stored image, if it is complete. -/
def Store.complete (s : Store) (d : Disk) (id : String) : Except Error CompleteImage :=
  match s.metadata d id with
  | .error e => .error e
  | .ok m =>
    match s.config d id with
    | .error e => .error e
    | .ok config => (s.layerFiles d id m.layers).map fun layers => ⟨config, layers⟩

namespace CompleteImage

def configBlob (i : CompleteImage) : Blob :=
  .of MediaType.config i.config

def layerBlob (gzip : Gzip.Encoder) (compress : Bool) (data : Bytes) : Blob :=
  if compress then .of MediaType.gzippedLayer (gzip.encode data) else .of MediaType.layer data

def layerBlobs (i : CompleteImage) (d : Disk) (gzip : Gzip.Encoder) (compress : Bool) :
    Except Error (List Blob) :=
  i.layers.mapM fun file =>
    match d.read file with
    | .error e => .error (.disk e)
    | .ok data => .ok (layerBlob gzip compress data)

end CompleteImage

namespace Copy

/-- Whether layers are compressed on the way to a destination. -/
def compresses (destination : Destination) (options : CopyOptions) : Bool :=
  destination.transport ≠ .dockerArchive && options.compressLayers

/-- The names under which an archive knows its image: those asked for, and the one of the
destination. -/
def archiveNames (tags : List Tagged) (reference : Option Reference) : List String :=
  let names := tags.map Tagged.familiar
  match reference.bind Reference.tagged? with
  | none => names
  | some t => if t.familiar ∈ names then names else names ++ [t.familiar]

def deliver (agent : Registry.Agent) (job : CopyJob) (config : Blob) (layers : List Blob)
    (manifest : Bytes) : Act Host Unit :=
  match job.destination with
  | .registry r => Registry.push agent r config layers manifest job.options.quiet
  | .archive path reference =>
    Archive.write path config layers (archiveNames job.archiveTags reference) job.options.quiet
  | .folder path => Folder.write path config layers manifest job.options.quiet

/-- Copies an image out of a store: the manifest that was written. -/
def run (s : Store) (agent : Registry.Agent) (job : CopyJob) : Act Host Bytes := do
  let h ← Act.state
  let image ← Act.ofExcept (s.complete h.disk job.source.id)
  Progress.begun job.options.quiet
  let config := image.configBlob
  -- every layer is read before the first byte is written anywhere
  let layers ← Act.ofExcept
    (image.layerBlobs h.disk h.gzip (compresses job.destination job.options))
  let manifest := Manifest.bytes config layers
  deliver agent job config layers manifest
  pure manifest

end Copy
end Depot
