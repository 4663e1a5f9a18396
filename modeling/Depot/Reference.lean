import Depot.Text.Split

/-!
References to images: a registry, a repository in it, and optionally a tag, a digest, or both. This
module holds the reference itself and the names derived from it; reading one from text is in
`Depot.Reference.Parser`.
-/
namespace Depot

structure Reference where
  registry : String
  repository : String
  tag : Option String
  digest : Option String
  deriving DecidableEq

/-- A repository name with a tag of its own. -/
structure Tagged where
  name : String
  tag : String
  deriving DecidableEq

/-- The registry of references that name none. -/
def defaultRegistry : String := "docker.io"

/-- The tag of references that name neither tag nor digest. -/
def defaultTag : String := "latest"

/-- The directory of the default registry in which one-word repositories live. -/
def officialFolder : String := "library/"

namespace Tagged

def render (t : Tagged) : String :=
  t.name ++ ":" ++ t.tag

end Tagged

namespace Reference

def name (r : Reference) : String :=
  r.registry ++ "/" ++ r.repository

/-- The tag, `latest` if there is none. -/
def effectiveTag (r : Reference) : String :=
  r.tag.getD defaultTag

/-- The name with its tag: what the local store files the reference under. -/
def canonicalName (r : Reference) : String :=
  r.name ++ ":" ++ r.effectiveTag

/-- Name and tag, if the tag is spelled out. -/
def tagged? (r : Reference) : Option Tagged :=
  r.tag.map fun t => ⟨r.name, t⟩

/-- What a registry is asked for: the digest if it stands alone, otherwise the tag. -/
def manifestName (r : Reference) : String :=
  match r.tag, r.digest with
  | none, some d => d
  | _, _ => r.effectiveTag

def render (r : Reference) : String :=
  r.name ++ (match r.tag with | some t => ":" ++ t | none => "") ++
    (match r.digest with | some d => "@" ++ d | none => "")

/-- The registries that are spoken to without encryption: those of this machine, by their names. -/
def isLocal (registry : String) : Bool :=
  (Text.after? "localhost".toList registry.toList).isSome ||
    (Text.after? "127.".toList registry.toList).isSome

/-- Where the registry is served. The default registry has an address of its own. -/
def endpoint (r : Reference) : String :=
  if r.registry = defaultRegistry then "https://registry-1.docker.io"
  else if isLocal r.registry then "http://" ++ r.registry
  else "https://" ++ r.registry

/-- The reference with the tag `latest` where it has neither tag nor digest. -/
def withDefaultTag (r : Reference) : Reference :=
  if r.tag.isNone ∧ r.digest.isNone then { r with tag := some defaultTag } else r

end Reference

namespace Tagged

/-- The name without the parts that are understood: the default registry, then its official folder
when one word is left. -/
def familiarName (name : String) : String :=
  let cs := (Text.after? (defaultRegistry ++ "/").toList name.toList).getD name.toList
  match Text.after? officialFolder.toList cs with
  | some short => if '/' ∈ short then String.ofList cs else String.ofList short
  | none => String.ofList cs

/-- The short form under which the image is known in archives. -/
def familiar (t : Tagged) : String :=
  familiarName t.name ++ ":" ++ t.tag

end Tagged
end Depot
