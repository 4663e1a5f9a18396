import Depot.Reference.Error
import Depot.Text.Quoted

/-!
Everything that can go wrong, by cause, and how it is said.
-/
namespace Depot

/-- Why the disk refused. -/
inductive DiskError where
  | notFound
  | alreadyExists
  | notAFolder
  | isAFolder
  /-- The path ends in a name that cannot be replaced. -/
  | busy
  | notEmpty
  /-- A name or the whole path is too long. -/
  | nameTooLong
  /-- The path holds a NUL. -/
  | invalidPath
  /-- The content is not the text that was asked for. -/
  | notText
  /-- The archive is damaged. -/
  | damaged
  deriving DecidableEq

/-- Why an image could not be copied. -/
inductive CopyError where
  | missingLayer (digest image : String)
  | noManifest
  | missingMember (name : String)
  /-- A copy engine's own reason. -/
  | refused (reason : String)
  deriving DecidableEq

def CopyError.message : CopyError → String
  | .missingLayer digest image =>
    "layer " ++ digest ++ " of image " ++ image ++ " is missing from the store"
  | .noManifest => "archive has no manifest.json"
  | .missingMember name => "archive is missing " ++ name
  | .refused reason => reason

/-- Why a registry did not take an image. -/
inductive RegistryError where
  | uploadNotStarted (digest status : String)
  | noLocation
  /-- The location of an upload is no URL. -/
  | badLocation (reason : String)
  | blobRefused (digest status : String)
  | manifestRefused (status : String)
  | invalidToken
  deriving DecidableEq

def RegistryError.message : RegistryError → String
  | .uploadNotStarted digest status => "Failed to start upload of " ++ digest ++ ": " ++ status
  | .noLocation => "Upload session has no Location header"
  | .badLocation reason => reason
  | .blobRefused digest status => "Failed to upload blob " ++ digest ++ ": " ++ status
  | .manifestRefused status => "Failed to push manifest: " ++ status
  | .invalidToken => "Invalid token"

inductive Error where
  | disk (e : DiskError)
  /-- A document that does not say what it should. -/
  | json
  /-- No answer from the network. -/
  | http
  | imageNotFound (name : String)
  | reference (e : ReferenceError)
  | conflictingTag (destination : String)
  /-- Only registries take all the tags of an image at once. -/
  | allTagsElsewhere (transport : String)
  | unresolved (destination : String) (why : ReferenceError)
  | copy (e : CopyError)
  | registry (e : RegistryError)
  | config
  /-- An image id whose first twelve bytes end inside a character. -/
  | dividedCharacter (id : String)
  deriving DecidableEq

/-- Whether the error says that an image is not in the store. -/
def Error.isNotFound : Error → Bool
  | .imageNotFound _ => true
  | _ => false

/-- The error in words; none for the kinds that are told apart by their kind alone. -/
def Error.message? : Error → Option String
  | .disk _ | .json | .http | .config | .dividedCharacter _ => none
  | .imageNotFound name => some ("Image not found: " ++ name)
  | .reference e => some ("Invalid image reference: " ++ e.message)
  | .conflictingTag destination => some ("Tag can't be used with --all-tags/-a: " ++ destination)
  | .allTagsElsewhere transport =>
    some ("Unsupported push mode: --all-tags can only be used with the docker transport, not " ++
      transport)
  | .unresolved destination why =>
    some ("Invalid destination " ++ Text.quoted destination ++ ": Invalid image reference: " ++
      why.message)
  | .copy e => some ("Copy error: " ++ e.message)
  | .registry e => some ("Registry error: " ++ e.message)

end Depot
