import Depot.Archive.Reader
import Depot.Command
import Depot.Listing
import Depot.Push
import Depot.Store.Log

/-!
Carrying out commands. Each works on the store of the invocation with the settings of that store;
what it shows goes to the output line by line.
-/
namespace Depot
namespace Command

def printLines : List String → Act Host Unit
  | [] => pure ()
  | line :: lines => do
    Host.print line
    printLines lines

/-! ### Pushing -/

/-- Pushes as the command says: the manifest, if there is a single one. -/
def pushImages (s : Store) (settings : Settings) (agent : Registry.Agent) (c : PushCommand) :
    Act Host (Option Bytes) :=
  let pusher : Pusher Unit := {
    lookup := fun d text => s.lookup d text
    transports := Transport.all
    defaultTransport := settings.defaultTransport
    engine := Copy.engine s agent
    sink := .log s }
  let options : PushOptions :=
    ⟨c.allTags, ⟨!c.noCompress, c.removeSignatures, c.quiet⟩⟩
  fun h =>
    match pusher.push c.source (c.destination.getD "") options ⟨h, (), []⟩ with
    | (r, t) => (r, t.host)

/-- Pushes, and shows the digest of the manifest. -/
def runPush (s : Store) (settings : Settings) (c : PushCommand) : Act Host Unit := do
  let agent ← Act.ofExcept (Registry.Agent.of settings.userAgent)
  match ← pushImages s settings agent c with
  | none => pure ()
  | some manifest =>
    let digest := Digest.ofBytes manifest
    match c.digestFile with
    | some file => Host.write file (Bytes.ofText digest)
    | none => pure ()
    Host.print digest

/-! ### Naming -/

/-- Names an image, one name after the other. -/
def runTag (s : Store) (c : TagCommand) : Act Host Unit := do
  let h ← Act.state
  match s.find h.disk c.source with
  | none => Act.fail (.imageNotFound c.source)
  | some id => s.tagAll id c.targets

/-! ### Listing -/

/-- Prints rows, each with its age when it is printed. -/
def printRows (whole : Bool) : List Listing.Row → Act Host Unit
  | [] => pure ()
  | r :: rs => do
    let now ← Host.now
    Host.print (Listing.rowLine whole now r)
    printRows whole rs

/-- The name of the repository that a text is taken for. -/
def repositoryOf : Option String → Except Error (Option String)
  | none => .ok none
  | some text =>
    match Reference.takeApart text with
    | .ok r => .ok (some r.name)
    | .error e => .error (.reference e)

def runImages (s : Store) (c : ImagesCommand) : Act Host Unit := do
  let h ← Act.state
  let images ← Act.ofExcept (s.list h.disk)
  let repository ← Act.ofExcept (repositoryOf c.repository)
  let rows := Listing.rows images repository
  if c.quiet then
    printLines ((Listing.distinct (rows.map fun r => r.image.id)).map
      (Listing.shortId · c.noTruncation))
  else
    Host.print Listing.heading
    printRows c.noTruncation rows

/-! ### Loading -/

/-- What is shown of an image that has been loaded. -/
def loadedLines (m : Metadata) (id : String) : List String :=
  (if m.repoTags = [] then ["Loaded image ID: sha256:" ++ id] else []) ++
    m.repoTags.map ("Loaded image: " ++ ·)

/-- Shows the images that have been loaded. -/
def showLoaded (s : Store) : List String → Act Host Unit
  | [] => pure ()
  | id :: ids => do
    let h ← Act.state
    let m ← Act.ofExcept (s.metadata h.disk id)
    printLines (loadedLines m id)
    showLoaded s ids

def runLoad (s : Store) (c : LoadCommand) : Act Host Unit := do
  s.prepare
  let ids ← Archive.load s c.input
  if c.quiet then pure () else showLoaded s ids

/-! ### Events -/

def eventLine (e : Event) : String :=
  e.time.renderOffset ++ " image " ++ Event.kind ++ " " ++ Listing.shortId e.id false ++
    " (" ++ e.name ++ ")"

/-- Shows the recorded pushes. -/
def runEvents (s : Store) (c : EventsCommand) : Act Host Unit := do
  let h ← Act.state
  let events ← Act.ofExcept (s.events h.disk)
  let events := events.filter fun e =>
    c.image.all fun start => (Text.after? start.toList e.id.toList).isSome
  printLines (events.map fun e => if c.json then Document.compact e else eventLine e)

def run (s : Store) (settings : Settings) : Command → Act Host Unit
  | .push c => runPush s settings c
  | .tag c => runTag s c
  | .images c => runImages s c
  | .load c => runLoad s c
  | .events c => runEvents s c

end Command

namespace Invocation

/-- The folder of the store below the home of the user. -/
def defaultFolder : String := ".porter"

/-- The store of an invocation. -/
def store (i : Invocation) (home : String) : Store :=
  ⟨i.root.getD (Path.join home defaultFolder)⟩

/-- Carries out an invocation for a user with the given home. -/
def run (i : Invocation) (home : String) : Act Host Unit := do
  let s := i.store home
  let h ← Act.state
  let settings ← Act.ofExcept (s.settings h.disk)
  let defaultTransport := i.defaultTransport.getD settings.defaultTransport
  Command.run s { settings with defaultTransport } i.command

end Invocation
end Depot
