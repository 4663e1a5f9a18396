import Depot.Bytes.Cut
import Depot.Text.Quoted

/-!
Why a text is no reference and no destination, and how that is said.
-/
namespace Depot

/-- What is wrong with a reference, in the order in which it is looked for. -/
inductive Malformation where
  | empty
  | digest
  | tag
  | tooLong
  | domain
  | format
  deriving DecidableEq

/-- The reason, as it stands behind the reference. -/
def Malformation.message : Malformation → String
  | .empty => "empty reference"
  | .digest => "invalid digest"
  | .tag => "invalid tag"
  | .tooLong => "repository name must not be more than 255 characters"
  | .domain => "invalid domain"
  | .format => "invalid reference format"

/-- Why a text names no image or no destination. -/
inductive ReferenceError where
  /-- Nothing but blanks. -/
  | blank
  | malformed (text : String) (why : Malformation)
  /-- A destination without a colon. -/
  | noTransport (text : String)
  /-- A destination whose transport is not among those known. -/
  | unknownTransport (text name : String)
  /-- A transport name that there is not. -/
  | noSuchTransport (name : String)
  /-- A registry destination that does not begin with two slashes. -/
  | missingSlashes (location : String)
  /-- An archive destination whose reference has a digest. -/
  | digestInArchive (location : String)
  | emptyPath
  /-- The reading of a text was stopped. -/
  | stopped (text : String) (fault : Bytes.Fault)
  deriving DecidableEq

def ReferenceError.message : ReferenceError → String
  | .blank => "Empty image reference"
  | .malformed text why => text ++ ": " ++ why.message
  | .noTransport text => text ++ ": expected colon-separated transport:reference"
  | .unknownTransport text name => text ++ ": unknown transport " ++ Text.quoted name
  | .noSuchTransport name => "unknown transport " ++ Text.quoted name
  | .missingSlashes location => "docker:" ++ location ++ ": docker references must start with //"
  | .digestInArchive location =>
    "docker-archive:" ++ location ++ ": digest references are not allowed"
  | .emptyPath => "path must not be empty"
  | .stopped text _ => text ++ ": cannot be read"

end Depot
