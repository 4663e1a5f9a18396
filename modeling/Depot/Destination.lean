import Depot.Reference

/-!
Where an image can be pushed to: a repository of a registry, an archive file, or a folder. Each of
the three transports has a name, and a lead that turns a bare location into a destination.
-/
namespace Depot

/-- The ways in which an image leaves the depot. -/
inductive Transport where
  | docker
  | dockerArchive
  | dir
  deriving DecidableEq

namespace Transport

def all : List Transport := [.docker, .dockerArchive, .dir]

def name : Transport → String
  | .docker => "docker"
  | .dockerArchive => "docker-archive"
  | .dir => "dir"

/-- What stands before a location to say that it belongs to the transport. -/
def lead : Transport → String
  | .docker => "docker://"
  | .dockerArchive => "docker-archive:"
  | .dir => "dir:"

def named? (name : String) : Option Transport :=
  all.find? fun t => t.name = name

theorem mem_all (t : Transport) : t ∈ all := by cases t <;> simp [all]

theorem named?_name (t : Transport) : named? t.name = some t := by cases t <;> rfl

end Transport

/-- A place to push an image to. -/
inductive Destination where
  | registry (reference : Reference)
  /-- An archive file, and the reference under which the image is known in it. -/
  | archive (path : String) (reference : Option Reference)
  | folder (path : String)
  deriving DecidableEq

namespace Destination

/-- The transport that serves a destination. -/
def transport : Destination → Transport
  | .registry _ => .docker
  | .archive _ _ => .dockerArchive
  | .folder _ => .dir

/-- The location without its transport. -/
def location : Destination → String
  | .registry r => r.render
  | .archive path none => path
  | .archive path (some r) => path ++ ":" ++ r.render
  | .folder path => path

def render (d : Destination) : String :=
  d.transport.lead ++ d.location

end Destination
end Depot
