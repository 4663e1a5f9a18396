import Depot.Copy
import Depot.Destination.Parser
import Depot.Store.Log

/-!
Pushing: which image goes where, and the record of it. A push goes to one destination, or to one
repository under every tag of the image. The copies are made by an engine with a state of its own.
Every copy that is begun is recorded, whatever comes of it; a step that fails ends the push.
-/
namespace Depot

/-- What makes the copies. It works on the surroundings and on a state of its own. -/
abbrev Engine (τ : Type) : Type := CopyJob → Act (Host × τ) Bytes

/-- The engine that copies out of a store. It needs no state of its own. -/
def Copy.engine {τ : Type} (s : Store) (agent : Registry.Agent) : Engine τ := fun job =>
  (Copy.run s agent job).within Prod.fst fun host t => (host, t.2)

inductive Sink where
  | nowhere
  /-- In the event log of a store. -/
  | log (store : Store)
  /-- In the state of the push. -/
  | memory

/-- What a push works on. -/
structure PushState (τ : Type) where
  host : Host
  engine : τ
  /-- The copies that were recorded in memory, oldest first. -/
  recorded : List Event

structure PushOptions where
  /-- Push under every tag of the image. -/
  allTags : Bool
  copy : CopyOptions

/-- How a push is made unless something else is asked for. -/
def PushOptions.default : PushOptions := ⟨false, .default⟩

/-- What pushes rely on. -/
structure Pusher (τ : Type) where
  /-- The image that a text denotes, and the name that it was found under. -/
  lookup : Disk → String → Except Error (LocalImage × String)
  transports : List Transport
  /-- The transport of destinations that name none. -/
  defaultTransport : Transport
  engine : Engine τ
  sink : Sink

namespace Pusher

variable {τ : Type}

/-- Does something with the surroundings. -/
def onHost {α : Type} (x : Act Host α) : Act (PushState τ) α :=
  x.within (·.host) fun host t => { t with host }

def runEngine (p : Pusher τ) (job : CopyJob) : Act (PushState τ) Bytes :=
  (p.engine job).within (fun t => (t.host, t.engine)) fun s t =>
    { t with host := s.1, engine := s.2 }

def record (p : Pusher τ) (e : Event) : Act (PushState τ) Unit :=
  match p.sink with
  | .nowhere => pure ()
  | .log store => onHost (store.record e)
  | .memory => Act.modify fun t => { t with recorded := t.recorded ++ [e] }

def destinationOf (p : Pusher τ) (text : String) : Except Error Destination :=
  match Destination.resolve p.transports p.defaultTransport text with
  | .ok r => .ok r.destination
  | .error why => .error (.unresolved text why)

/-- The copy of an image to the destination that a text denotes. Pushing under every tag is for
registries only. -/
def jobFor (p : Pusher τ) (d : Disk) (image : LocalImage) (text : String) (options : PushOptions) :
    Except Error CopyJob :=
  match image.source d with
  | .error e => .error e
  | .ok source =>
    match p.destinationOf text with
    | .error e => .error e
    | .ok destination =>
      if options.allTags ∧ destination.transport ≠ .docker then
        .error (.allTagsElsewhere destination.transport.name)
      else
        .ok ⟨source, destination, options.copy, Destination.preservedTags text destination⟩

/-- Pushes an image to one destination: the manifest that was written. The record tells when the copy
began. -/
def pushImage (p : Pusher τ) (image : LocalImage) (text : String) (options : PushOptions) :
    Act (PushState τ) Bytes := do
  let t ← Act.state
  let job ← Act.ofExcept (p.jobFor t.host.disk image text options)
  -- from here on the copy counts as begun, so it is recorded even when it fails
  let time ← onHost Host.now
  let result ← (p.runEngine job).attempt
  p.record ⟨image.id, text, time⟩
  Act.ofExcept result

def pushTags (p : Pusher τ) (image : LocalImage) (base : String) (options : PushOptions) :
    List Tagged → Act (PushState τ) Unit
  | [] => pure ()
  | tag :: tags => do
    let _ ← p.pushImage image (base ++ ":" ++ tag.tag) options
    p.pushTags image base options tags

/-- The text has a colon that does not belong to `docker://` at its beginning, so that no tag can be
added to it. -/
def hasColon (base : String) : Bool :=
  ':' ∈ (Text.after? Transport.docker.lead.toList base.toList).getD base.toList

/-- Pushes an image under each of its tags to one repository. -/
def pushAllTags (p : Pusher τ) (image : LocalImage) (base : String) (options : PushOptions) :
    Act (PushState τ) Unit := do
  if hasColon base then Act.fail (.conflictingTag base)
  else
    let tags ← Act.ofExcept image.taggedNames
    p.pushTags image base options tags

/-- Pushes what a text denotes. Without a destination it goes where its name says. There is a manifest
when it goes to a single destination. -/
def push (p : Pusher τ) (source destination : String) (options : PushOptions) :
    Act (PushState τ) (Option Bytes) := do
  let t ← Act.state
  let (image, name) ← Act.ofExcept (p.lookup t.host.disk source)
  let destination := if destination = "" then name else destination
  if options.allTags then do
    p.pushAllTags image destination options
    pure none
  else do
    let manifest ← p.pushImage image destination options
    pure (some manifest)

end Pusher
end Depot
