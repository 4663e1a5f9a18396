import Depot.Digest
import Depot.Host
import Depot.Store.Metadata

/-!
The store: where under its root everything is kept, and what can be read from it. Images have a
folder each, with their config as it was received and what is known of them; layers have a folder
each, named by their digest; the index, the event log and the settings lie at the root.
-/
namespace Depot

/-- A store, given by its root folder. -/
structure Store where
  root : String

namespace Store

/-! ### Where things are -/

def imagesFolder (s : Store) : String := Path.join s.root "images"

def imageFolder (s : Store) (id : String) : String := Path.join s.imagesFolder id

def configFile (s : Store) (id : String) : String := Path.join (s.imageFolder id) "config.json"

def metadataFile (s : Store) (id : String) : String := Path.join (s.imageFolder id) "metadata.json"

def layersFolder (s : Store) : String := Path.join s.root "layers"

def layerFolder (s : Store) (hex : String) : String := Path.join s.layersFolder hex

/-- A layer, uncompressed. -/
def layerFile (s : Store) (hex : String) : String := Path.join (s.layerFolder hex) "layer.tar"

def indexFile (s : Store) : String := Path.join s.root "images.json"

def eventsFile (s : Store) : String := Path.join s.root "events.jsonl"

def settingsFile (s : Store) : String := Path.join s.root "config.json"

/-! ### What can be read -/

def metadata (s : Store) (d : Disk) (id : String) : Except Error Metadata :=
  match d.readText (s.metadataFile id) with
  | .error _ => .error (.imageNotFound id)
  | .ok text =>
    match Document.parse? text with
    | some m => .ok m
    | none => .error .json

def config (s : Store) (d : Disk) (id : String) : Except Error Bytes :=
  match d.read (s.configFile id) with
  | .error _ => .error (.imageNotFound (id ++ ": missing config blob"))
  | .ok content => .ok content

/-- The index; a store without one has no names. -/
def index (s : Store) (d : Disk) : Except Error Index :=
  if d.exists? s.indexFile then
    match d.readText s.indexFile with
    | .error e => .error (.disk e)
    | .ok text =>
      match Document.parse? text with
      | some i => .ok i
      | none => .error .json
  else .ok .empty

/-- The index, empty if it cannot be read. -/
def indexOrEmpty (s : Store) (d : Disk) : Index :=
  match s.index d with
  | .ok i => i
  | .error _ => .empty

def hasLayer (s : Store) (d : Disk) (digest : String) : Bool :=
  d.exists? (s.layerFile (Digest.encoded digest))

/-- The images, newest first. Folders that hold no readable image are passed over. -/
def list (s : Store) (d : Disk) : Except Error (List Metadata) :=
  if d.exists? s.imagesFolder then
    match d.list s.imagesFolder with
    | .error e => .error (.disk e)
    | .ok entries =>
      let images := entries.filterMap fun e =>
        if e.2 = .folder then (s.metadata d e.1).toOption else none
      .ok (images.mergeSort fun a b => b.created.le a.created)
  else .ok []

end Store
end Depot
