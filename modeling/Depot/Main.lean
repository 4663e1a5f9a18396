import Depot.Command.Run
import Std.Time.DateTime.Timestamp

/-!
The program. A run takes a picture of the part of the disk that it may touch, works on the picture,
and then changes the disk where the picture has changed. It has no connection of its own, so
registries are out of reach.
-/
namespace Depot.Program

/-! ### What a run may touch -/

/-- The place of a path, by its names alone. -/
def placeOf (here : Place) (path : String) : Place :=
  let start := if Path.isAbsolute path then [] else here
  (Path.components path).foldl
    (fun p c =>
      if c = ['.'] then p else if c = ['.', '.'] then p.dropLast else p ++ [String.ofList c])
    start

/-- Where a destination lies on the disk. -/
def pathOf? : Destination → Option String
  | .registry _ => none
  | .archive path _ => some path
  | .folder path => some path

/-- The paths that a command gives. -/
def givenPaths : Command → List String
  | .push c => c.digestFile.toList
  | .load c => [c.input]
  | _ => []

/-- The path to which a command pushes. -/
def pushedPaths (i : Invocation) (s : Store) (d : Disk) : List String :=
  match i.command with
  | .push c =>
    match s.lookup d c.source with
    | .error _ => []
    | .ok (_, name) =>
      let text := match c.destination with
        | some t => if t = "" then name else t
        | none => name
      let settings := (s.settings d).toOption.getD .default
      let default := i.defaultTransport.getD settings.defaultTransport
      match Destination.resolve Transport.all default text with
      | .error _ => []
      | .ok r => (pathOf? r.destination).toList
  | _ => []

/-! ### Picture and disk -/

def pathText (p : Place) : String := "/" ++ "/".intercalate p

/-- Adds what is at a place to the picture, and everything below it. -/
partial def addTree (p : Place) (d : Disk) : IO Disk := do
  match ← (IO.FS.realPath (pathText p)).toBaseIO with
  | .error _ => return d
  | .ok real =>
    if ← real.isDir then
      let mut d := if p = [] then d else d.put p .folder
      for entry in ← real.readDir do
        d ← addTree (p ++ [entry.fileName]) d
      return d
    else
      return d.put p (.file (← IO.FS.readBinFile real).data.toList)

/-- Adds the folders on the way to a place to the picture. -/
def addWay (p : Place) (d : Disk) : IO Disk := do
  let mut d := d
  for n in List.range p.length do
    let q := p.take n
    if q ≠ [] then
      match ← (IO.FS.realPath (pathText q)).toBaseIO with
      | .error _ => pure ()
      | .ok real => d := d.put q (if ← real.isDir then .folder else .file [])
  return d

/-- Adds what is at some paths to the picture. -/
def addPaths (d : Disk) (paths : List String) : IO Disk := do
  let mut d := d
  for path in paths do
    let p := placeOf d.here path
    d ← addWay p d
    d ← addTree p d
  return d

/-- Changes the disk where two pictures differ. -/
def carryOver (before after : Disk) : IO Unit := do
  for (p, n) in after.nodes do
    if before.node? p ≠ some n then
      match n with
      | .folder => IO.FS.createDirAll (pathText p)
      | .file content => IO.FS.writeBinFile (pathText p) ⟨content.toArray⟩
  for (p, n) in before.nodes.reverse do
    if after.node? p = none then
      match n with
      | .folder => IO.FS.removeDir (pathText p)
      | .file _ => IO.FS.removeFile (pathText p)

/-! ### Running -/

def describeDisk : DiskError → String
  | .notFound => "No such file or directory"
  | .alreadyExists => "File exists"
  | .notAFolder => "Not a directory"
  | .isAFolder => "Is a directory"
  | .busy => "Device or resource busy"
  | .notEmpty => "Directory not empty"
  | .nameTooLong => "File name too long"
  | .invalidPath => "Invalid argument"
  | .notText => "stream did not contain valid UTF-8"
  | .damaged => "damaged archive"

def describe : Error → String
  | .disk e => "IO error: " ++ describeDisk e
  | .json => "JSON error"
  | .http => "HTTP error"
  | .config => "Config error"
  | .dividedCharacter id => "the short form of an id ends inside a character: " ++ id
  | e => e.message?.getD ""

/-- What is said of a command line that is not carried out, and the exit code. -/
def describeRefusal : Command.Refusal → String × UInt32
  | .help => ("Usage: porter [OPTIONS] <COMMAND>", 0)
  | .version => (programName ++ " " ++ programVersion, 0)
  | .helpForNothing => ("Usage: porter [OPTIONS] <COMMAND>", 2)
  | .unknownArgument => ("error: unexpected argument", 2)
  | .emptyValue => ("error: a value is required", 2)
  | .impossibleValue => ("error: invalid value", 2)
  | .repeated => ("error: an argument cannot be used multiple times", 2)
  | .needlessValue => ("error: unexpected value", 2)
  | .missingOperand => ("error: required arguments were not provided", 2)
  | .unknownSubcommand => ("error: unrecognized subcommand", 2)
  | .missingSubcommand => ("error: a subcommand is required", 2)

/-- A fresh name out of random bytes. -/
def nameOf (random : Bytes) : String :=
  let digits := (Bytes.hex random).toList
  "-".intercalate ([(0, 8), (8, 4), (12, 4), (16, 4), (20, 12)].map fun (start, length) =>
    String.ofList ((digits.drop start).take length))

/-- Carries out an invocation: the exit code. -/
def carryOut (i : Invocation) (home : String) : IO UInt32 := do
  let here := placeOf [] (← IO.currentDir).toString
  let s := i.store home
  let d ← addPaths ⟨[], here⟩ (s.root :: givenPaths i.command)
  let d ← addPaths d (pushedPaths i s d)
  let nanos := (← Std.Time.Timestamp.now).toNanosecondsSinceUnixEpoch.val.toNat
  let random := (← IO.getRandomBytes 16).data.toList
  let start := Host.start d (fun n => Instant.ofNanos (nanos + 1000 * n))
    (fun n => nameOf random ++ "-" ++ toString n) Wire.cut
  let (result, host) := i.run home start
  (← IO.getStderr).putStr host.progress
  carryOver d host.disk
  (← IO.getStdout).putStr host.output
  match result with
  | .ok () => return 0
  | .error e =>
    IO.eprintln ("Error: " ++ describe e)
    return 1

end Depot.Program

def main (words : List String) : IO UInt32 := do
  match Depot.Invocation.parse words with
  | .error refusal =>
    let (text, code) := Depot.Program.describeRefusal refusal
    if code = 0 then IO.println text else IO.eprintln text
    return code
  | .ok i => Depot.Program.carryOut i ((← IO.getEnv "HOME").getD "/")
