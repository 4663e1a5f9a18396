import Depot.Digest
import Depot.Json.Document

/-!
Manifests: what an image consists of. A manifest describes a config blob and the layer blobs, bottom
first; a descriptor gives the kind, the digest and the size of a blob.
-/
namespace Depot

/-- The description of a blob. -/
structure Descriptor where
  mediaType : String
  digest : String
  size : Int64
  urls : Option (List String)
  annotations : Option Dictionary

/-- The description of an image. -/
structure Manifest where
  schemaVersion : Int32
  mediaType : Option String
  config : Descriptor
  layers : List Descriptor
  annotations : Option Dictionary

namespace MediaType

/-- A manifest of schema version 2. -/
def manifest : String := "application/vnd.docker.distribution.manifest.v2+json"

def config : String := "application/vnd.docker.container.image.v1+json"

/-- A compressed layer. -/
def gzippedLayer : String := "application/vnd.docker.image.rootfs.diff.tar.gzip"

/-- A layer as it is. -/
def layer : String := "application/vnd.docker.image.rootfs.diff.tar"

/-- Bytes of any kind. -/
def bytes : String := "application/octet-stream"

end MediaType

namespace Descriptor

/-- The description of a blob of a given size. -/
def of (mediaType digest : String) (size : Int64) : Descriptor :=
  { mediaType, digest, size, urls := none, annotations := none }

instance : Document Descriptor where
  toJson d := Json.ofFields [
    ("mediaType", some (Json.ofText d.mediaType)),
    ("digest", some (Json.ofText d.digest)),
    ("size", some (.integer d.size.toInt)),
    ("urls", d.urls.map Json.ofTexts),
    ("annotations", d.annotations.map Json.ofDictionary)]
  ofJson? j := do
    let r ← j.record? ["mediaType", "digest", "size", "urls", "annotations"]
    let mediaType ← r.required "mediaType" Json.text?
    let digest ← r.required "digest" Json.text?
    let size ← r.required "size" (Json.integer? Int64.minValue.toInt Int64.maxValue.toInt)
    let urls ← r.optional "urls" Json.texts?
    let annotations ← r.optional "annotations" Json.dictionary?
    some { mediaType, digest, size := Int64.ofInt size, urls, annotations }

end Descriptor

namespace Manifest

instance : Document Manifest where
  toJson m := Json.ofFields [
    ("schemaVersion", some (.integer m.schemaVersion.toInt)),
    ("mediaType", m.mediaType.map Json.ofText),
    ("config", some (Document.toJson m.config)),
    ("layers", some (Document.toJson m.layers)),
    ("annotations", m.annotations.map Json.ofDictionary)]
  ofJson? j := do
    let r ← j.record? ["schemaVersion", "mediaType", "config", "layers", "annotations"]
    let schemaVersion ← r.required "schemaVersion" (Json.integer? Int32.minValue.toInt Int32.maxValue.toInt)
    let mediaType ← r.optional "mediaType" Json.text?
    let config ← r.required "config" Document.ofJson?
    let layers ← r.required "layers" Document.ofJson?
    let annotations ← r.optional "annotations" Json.dictionary?
    some { schemaVersion := Int32.ofInt schemaVersion, mediaType, config, layers, annotations }

end Manifest

/-- Bytes with their description. -/
structure Blob where
  descriptor : Descriptor
  data : Bytes

namespace Blob

def of (mediaType : String) (data : Bytes) : Blob :=
  ⟨.of mediaType (Digest.ofBytes data) (Int64.ofNat data.length), data⟩

def digest (b : Blob) : String := b.descriptor.digest

/-- The name of a blob as a file: its digest without the algorithm. -/
def fileName (b : Blob) : String := Digest.encoded b.digest

end Blob

def Manifest.of (config : Blob) (layers : List Blob) : Manifest where
  schemaVersion := 2
  mediaType := some MediaType.manifest
  config := config.descriptor
  layers := layers.map Blob.descriptor
  annotations := none

/-- The manifest of a config and its layers, as it is published. -/
def Manifest.bytes (config : Blob) (layers : List Blob) : Bytes :=
  Bytes.ofText (Document.pretty (Manifest.of config layers))

end Depot
