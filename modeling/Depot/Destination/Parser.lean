import Depot.Destination
import Depot.Reference.Parser

/-!
Reading destinations. `parse` reads `transport:location` for a set of known transports. `resolve`
also takes a bare location, which the default transport then completes; when that fails as well, the
error is the one of the text as it was given.
-/
namespace Depot.Destination

/-- The transport with a name, among those known. -/
def known? (transports : List Transport) (name : String) : Option Transport :=
  transports.find? fun t => t.name = name

def parsePath (path : List Char) : Except ReferenceError String :=
  if path = [] then .error .emptyPath else .ok (String.ofList path)

/-- The location of a registry destination: two slashes and a reference. -/
def parseRegistry (location : List Char) : Except ReferenceError Destination :=
  match Text.after? ['/', '/'] location with
  | none => .error (.missingSlashes (String.ofList location))
  | some name => (Reference.parse (String.ofList name)).map fun r => .registry r.withDefaultTag

/-- The reference of an archive destination: it has a tag, if need be `latest`, and no digest. -/
def archiveReference (location reference : List Char) : Except ReferenceError Reference :=
  match Reference.parse (String.ofList reference) with
  | .error e => .error e
  | .ok r =>
    if r.digest.isSome then .error (.digestInArchive (String.ofList location))
    else .ok { r with tag := some r.effectiveTag }

/-- The location of an archive destination: a path, and a reference behind its first colon. -/
def parseArchive (location : List Char) : Except ReferenceError Destination :=
  match Text.cutFirst ':' location with
  | none => (parsePath location).map fun path => .archive path none
  | some (path, reference) =>
    match parsePath path with
    | .error e => .error e
    | .ok path => (archiveReference location reference).map fun r => .archive path (some r)

def parseLocation (transport : Transport) (location : List Char) :
    Except ReferenceError Destination :=
  match transport with
  | .docker => parseRegistry location
  | .dockerArchive => parseArchive location
  | .dir => (parsePath location).map .folder

/-- The destination that a text names with its transport. -/
def parse (transports : List Transport) (text : String) : Except ReferenceError Destination :=
  match Text.cutFirst ':' text.toList with
  | none => .error (.noTransport text)
  | some (name, location) =>
    match known? transports (String.ofList name) with
    | none => .error (.unknownTransport text (String.ofList name))
    | some transport => parseLocation transport location

/-- How a text came to denote a destination. -/
inductive Resolution where
  /-- It names its transport. -/
  | qualified (destination : Destination)
  /-- It denotes a destination of the default transport. -/
  | defaulted (destination : Destination)
  deriving DecidableEq

def Resolution.destination : Resolution → Destination
  | .qualified d => d
  | .defaulted d => d

/-- The destination that a text denotes, completed by the default transport if it has to be. -/
def resolve (transports : List Transport) (default : Transport) (text : String) :
    Except ReferenceError Resolution :=
  match parse transports text with
  | .ok d => .ok (.qualified d)
  | .error e =>
    match parse transports (default.lead ++ text) with
    | .ok d => .ok (.defaulted d)
    | .error _ => .error e

/-- The names to record in the archive for a destination that was given as `text`. There is one when
the destination is an archive and the text is itself a reference with a tag. -/
def preservedTags (text : String) (destination : Destination) : List Tagged :=
  if destination.transport = .dockerArchive then
    match Reference.parse text with
    | .ok r => r.tagged?.toList
    | .error _ => []
  else []

end Depot.Destination
