import Depot.Bytes.Base64
import Depot.Progress
import Depot.Reference
import Depot.Registry.Status
import Depot.Url

/-!
Pushing to a registry. A session speaks to the registry of one reference. The blobs go first, layers
before the config, each unless the registry has it; the manifest goes last, so that it never names a
blob that is not there. The first refusal ends the session.
-/
namespace Depot.Registry

/-- A character that a header may hold. -/
def isHeaderChar (c : Char) : Bool :=
  c == '\t' || (0x20 ≤ c.toNat && c.toNat != 0x7f)

/-- What the depot calls itself when it speaks to registries: a text that a header may hold. -/
structure Agent where
  name : String
  isHeader : name.toList.all isHeaderChar = true

/-- The agent of a name, if a header may hold it. -/
def Agent.of (name : String) : Except Error Agent :=
  if h : name.toList.all isHeaderChar = true then .ok ⟨name, h⟩ else .error .http

/-- A conversation with the registry of a reference. -/
structure Session where
  agent : Agent
  reference : Reference
  /-- What every request carries to be let in, if anything. -/
  authorization : Option String

/-! ### Requests -/

/-- What credentials in an address say in a header. -/
def basicAuthorization (user : List Char) (password : Option (List Char)) : Option String := do
  let user ← Bytes.text? (Percent.decode user)
  let password := (password.bind fun p => Bytes.text? (Percent.decode p)).getD ""
  some ("Basic " ++ String.ofList (Bytes.base64 (Bytes.ofText (user ++ ":" ++ password))))

/-- Sends a request to an address. Credentials in the address let it in if nothing else does. -/
def sendTo (agent : Agent) (authorization : Option String) (method : Method) (url : Url)
    (contentType : Option String) (body : Bytes) : Act Host Response :=
  let authorization := authorization.or
    (url.credentials.bind fun c => basicAuthorization c.1 c.2)
  let headers := [("user-agent", agent.name)] ++
    (authorization.map fun a => ("authorization", a)).toList ++
    (contentType.map fun t => ("content-type", t)).toList
  Host.send ⟨method, url.render, headers, body⟩

def sendToText (agent : Agent) (authorization : Option String) (method : Method) (text : String)
    (contentType : Option String) (body : Bytes) : Act Host Response :=
  match Url.parse? text with
  | none => Act.fail .http
  | some url => sendTo agent authorization method url contentType body

namespace Session

def send (s : Session) (method : Method) (url : Url) (contentType : Option String) (body : Bytes) :
    Act Host Response :=
  sendTo s.agent s.authorization method url contentType body

/-- Sends a request to a path below the repository of the session. -/
def sendBelow (s : Session) (method : Method) (path : String) (contentType : Option String)
    (body : Bytes) : Act Host Response :=
  sendToText s.agent s.authorization method
    (s.reference.endpoint ++ "/v2/" ++ s.reference.repository ++ path) contentType body

end Session

/-! ### Beginning a session -/

/-- Where the default registry gives out tokens. -/
def tokenAddress (r : Reference) : String :=
  "https://auth.docker.io/token?service=registry.docker.io&scope=repository:" ++ r.repository ++
    ":push,pull"

/-- The token in the answer to a request for one. -/
def tokenOf (body : Bytes) : Option String := do
  let r ← (← Json.parseBytes body).record? ["token"]
  r.required "token" Json.text?

/-- Asks for a token. Only the default registry wants one; if it gives none, the session begins
without. -/
def requestToken (agent : Agent) (r : Reference) : Act Host (Option String) :=
  if r.registry = defaultRegistry then do
    let response ← sendToText agent none .get (tokenAddress r) none []
    if Status.isSuccess response.status then
      match tokenOf response.body with
      | some token => pure (some token)
      | none => Act.fail .http
    else pure none
  else pure none

def begin (agent : Agent) (r : Reference) : Act Host Session := do
  match ← requestToken agent r with
  | none => pure ⟨agent, r, none⟩
  | some token =>
    if token.toList.all isHeaderChar then pure ⟨agent, r, some ("Bearer " ++ token)⟩
    else Act.fail (.registry .invalidToken)

namespace Session

/-! ### Blobs -/

def hasBlob (s : Session) (b : Blob) : Act Host Bool := do
  let response ← s.sendBelow .head ("/blobs/" ++ b.digest) none []
  pure (Status.isSuccess response.status)

/-- The location in a response, if it is of plain characters. -/
def locationOf (response : Response) : Option String :=
  (response.headers.lookup "location").filter fun l =>
    l.toList.all fun c => c == '\t' || (0x20 ≤ c.toNat && c.toNat < 0x7f)

/-- Where a blob goes: the location that the registry gave, read against its own address, with the
digest of the blob. There is no such address when the location is of a scheme that is not spoken. -/
def uploadAddress (s : Session) (location : String) (b : Blob) : Except Error Url :=
  match Url.parseFrom none s.reference.endpoint with
  | .error e => .error (.registry (.badLocation e.message))
  | .ok base =>
    -- a registry may give the location without its own address
    match Url.parseFrom base location with
    | .error e => .error (.registry (.badLocation e.message))
    | .ok none => .error .http
    | .ok (some url) => .ok (url.withField "digest" b.digest)

/-- Uploads a blob: asks where it should go, and sends it there as a whole. -/
def upload (s : Session) (b : Blob) : Act Host Unit := do
  let response ← s.sendBelow .post "/blobs/uploads/" none []
  if response.status ≠ Status.accepted then
    Act.fail (.registry (.uploadNotStarted b.digest (Status.render response.status)))
  else
    match locationOf response with
    | none => Act.fail (.registry .noLocation)
    | some location =>
      let url ← Act.ofExcept (s.uploadAddress location b)
      let response ← s.send .put url (some MediaType.bytes) b.data
      if response.status ≠ Status.created then
        Act.fail (.registry (.blobRefused b.digest (Status.render response.status)))
      else pure ()

/-- Sees to it that the registry has some blobs. -/
def pushBlobs (s : Session) (quiet : Bool) : List Blob → Act Host Unit
  | [] => pure ()
  | b :: bs => do
    if ← s.hasBlob b then Progress.copied quiet b true
    else
      s.upload b
      Progress.copied quiet b false
    pushBlobs s quiet bs

/-! ### The manifest -/

def putManifest (s : Session) (manifest : Bytes) : Act Host Unit := do
  let response ← s.sendBelow .put ("/manifests/" ++ s.reference.manifestName)
    (some MediaType.manifest) manifest
  if Status.isSuccess response.status then pure ()
  else Act.fail (.registry (.manifestRefused (Status.render response.status)))

end Session

def push (agent : Agent) (r : Reference) (config : Blob) (layers : List Blob) (manifest : Bytes)
    (quiet : Bool) : Act Host Unit := do
  let s ← begin agent r
  s.pushBlobs quiet (layers ++ [config])
  Progress.manifest quiet
  s.putManifest manifest

end Depot.Registry
