import Depot.Command.Grammar

/-!
The command line of the depot: five subcommands, and two switches that may stand before or within
any of them. The one within counts.
-/
namespace Depot

/-- Push an image to a registry, an archive or a folder. -/
structure PushCommand where
  source : String
  destination : Option String
  allTags : Bool
  noCompress : Bool
  removeSignatures : Bool
  /-- The file that takes the digest of the manifest. -/
  digestFile : Option String
  quiet : Bool

structure TagCommand where
  source : String
  targets : List String

structure ImagesCommand where
  repository : Option String
  /-- Show ids alone. -/
  quiet : Bool
  /-- Show ids in full. -/
  noTruncation : Bool

structure LoadCommand where
  input : String
  quiet : Bool

structure EventsCommand where
  /-- How the id of the image begins. -/
  image : Option String
  /-- Show them as they are recorded. -/
  json : Bool

/-- What is to be done. -/
inductive Command where
  | push (c : PushCommand)
  | tag (c : TagCommand)
  | images (c : ImagesCommand)
  | load (c : LoadCommand)
  | events (c : EventsCommand)

/-- A command line. -/
structure Invocation where
  /-- The root of the store. -/
  root : Option String
  defaultTransport : Option Transport
  command : Command

namespace Command

/-! ### The grammar -/

def flag (name : String) (letter : Option Char) : Switch :=
  ⟨name, letter, .flag⟩

def valued (name : String) (letter : Option Char) (kind : ValueKind) : Switch :=
  ⟨name, letter, .value kind⟩

/-- The switches that may stand anywhere. -/
def commonSwitches : List Switch := [
  valued "root" none .path,
  valued "default-transport" none .transport,
  ⟨"help", some 'h', .help⟩]

def subcommandNames : List String := ["push", "tag", "images", "load", "events", "help"]

/-- What may stand before a subcommand. -/
def outerGrammar : Grammar where
  switches := commonSwitches ++ [⟨"version", some 'V', .version⟩]
  operands := []
  subcommands := subcommandNames

/-- What may stand within a subcommand. -/
def innerGrammar (switches : List Switch) (operands : List Operand) : Grammar where
  switches := switches ++ commonSwitches
  operands := operands
  subcommands := []

def grammarOf (name : String) : Grammar :=
  if name = "push" then
    innerGrammar [flag "all-tags" (some 'a'), flag "no-compress" none,
        flag "remove-signatures" none, valued "digestfile" none .path, flag "quiet" (some 'q')]
      [⟨"source", true, false⟩, ⟨"destination", false, false⟩]
  else if name = "tag" then
    innerGrammar [] [⟨"source", true, false⟩, ⟨"targets", true, true⟩]
  else if name = "images" then
    innerGrammar [flag "quiet" (some 'q'), flag "no-trunc" none] [⟨"repository", false, false⟩]
  else if name = "load" then
    innerGrammar [valued "input" (some 'i') .path, flag "quiet" (some 'q')] []
  else
    innerGrammar [valued "image" none .text, flag "json" none] []

/-- The switches without which a subcommand is not carried out. -/
def requiredSwitches (name : String) : List String :=
  if name = "load" then ["input"] else []

/-! ### From words to commands -/

def valueOf? (r : Reading) (name : String) : Option String :=
  (r.values name).head?

/-- The value noted under a name that has to be there. -/
def valueOf (r : Reading) (name : String) : String :=
  (valueOf? r name).getD ""

/-- The command of a subcommand whose words have been read. -/
def ofReading (name : String) (r : Reading) : Command :=
  if name = "push" then
    .push {
      source := valueOf r "source"
      destination := valueOf? r "destination"
      allTags := r.has "all-tags"
      noCompress := r.has "no-compress"
      removeSignatures := r.has "remove-signatures"
      digestFile := valueOf? r "digestfile"
      quiet := r.has "quiet" }
  else if name = "tag" then .tag ⟨valueOf r "source", r.values "targets"⟩
  else if name = "images" then
    .images ⟨valueOf? r "repository", r.has "quiet", r.has "no-trunc"⟩
  else if name = "load" then .load ⟨valueOf r "input", r.has "quiet"⟩
  else .events ⟨valueOf? r "image", r.has "json"⟩

def readSubcommand (name : String) (words : List String) : Except Refusal Reading := do
  let g := grammarOf name
  let (r, _) ← readWords g false false g.operands .nothing words
  let r ← r.settle
  if (missing? g r).isSome ∨ (requiredSwitches name).any (!r.has ·) then .error .missingOperand
  else .ok r

/-- What is said to a request for help: each word after it must name a subcommand, and subcommands
have none of their own. -/
def helpOn : List String → Refusal
  | [] => .help
  | [name] => if name ∈ subcommandNames then .help else .unknownSubcommand
  | _ => .unknownSubcommand

end Command

/-- The command line that some words are. -/
def Invocation.parse (words : List String) : Except Command.Refusal Invocation := do
  let g := Command.outerGrammar
  let (outer, subcommand) ← Command.readWords g false false g.operands .nothing words
  match subcommand with
  | none =>
    let outer ← outer.settle
    .error (if outer.noted = [] then .helpForNothing else .missingSubcommand)
  | some (name, words) =>
    if name = "help" then .error (Command.helpOn words)
    else
      -- a fault within the subcommand is reported before one that is pending outside
      let inner ← Command.readSubcommand name words
      let outer ← outer.settle
      let common := fun key => (Command.valueOf? inner key).or (Command.valueOf? outer key)
      .ok {
        root := common "root"
        defaultTransport := (common "default-transport").bind Transport.named?
        command := Command.ofReading name inner }

end Depot
