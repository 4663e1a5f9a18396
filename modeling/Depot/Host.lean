import Depot.Disk
import Depot.Gzip.Stored
import Depot.Registry.Wire
import Depot.Time

/-!
The surroundings of the depot: a disk, a clock, a source of fresh names, a maker of gzip streams, the
wire to registries, and what has been printed. Clock and names are sequences that are used up one by
one, so that every reading may differ from the one before. A disk may also refuse a change for a
reason that is not on it, such as being full; when it does is a sequence too.
-/
namespace Depot

/-- The surroundings. -/
structure Host where
  disk : Disk
  /-- For each change to come, why the disk refuses it, if it does; a change beyond the end of the
  list is not refused. -/
  troubles : List (Option DiskError)
  /-- What the clock shows at each reading. -/
  clock : Nat → Instant
  /-- How often the clock has been read. -/
  readings : Nat
  /-- The fresh names. -/
  tokens : Nat → String
  /-- How many of them have been used. -/
  drawn : Nat
  /-- What makes gzip streams. How they come out is left to it, as long as they can be read again. -/
  gzip : Gzip.Encoder
  wire : Wire
  /-- What has been printed as output. -/
  output : String
  /-- What has been printed as progress. -/
  progress : String

namespace Host

/-- The surroundings of a fresh start: nothing read, drawn, sent or printed yet. -/
def start (disk : Disk) (clock : Nat → Instant) (tokens : Nat → String) (wire : Wire) : Host where
  disk := disk
  troubles := []
  clock := clock
  readings := 0
  tokens := tokens
  drawn := 0
  gzip := .stored
  wire := wire
  output := ""
  progress := ""

def now : Act Host Instant := fun h =>
  (.ok (h.clock h.readings), { h with readings := h.readings + 1 })

def token : Act Host String := fun h =>
  (.ok (h.tokens h.drawn), { h with drawn := h.drawn + 1 })

def print (line : String) : Act Host Unit :=
  Act.modify fun h => { h with output := h.output ++ line ++ "\n" }

def report (line : String) : Act Host Unit :=
  Act.modify fun h => { h with progress := h.progress ++ line ++ "\n" }

def send (request : Request) : Act Host Response :=
  (Wire.send request).within (·.wire) fun wire h => { h with wire }

/-! ### The disk -/

def ask {α : Type} (question : Disk → Except DiskError α) : Act Host α := fun h =>
  ((question h.disk).mapError .disk, h)

/-- Meets the trouble that awaits the next change. -/
def trouble : Act Host Unit := fun h =>
  match h.troubles with
  | [] => (.ok (), h)
  | none :: troubles => (.ok (), { h with troubles })
  | some e :: troubles => (.error (.disk e), { h with troubles })

/-- Changes the disk as far as it can be changed. -/
def alterPartly (change : Disk → Except DiskError Unit × Disk) : Act Host Unit := do
  -- a trouble strikes before anything is changed
  trouble
  fun h =>
    match change h.disk with
    | (r, disk) => (r.mapError Error.disk, { h with disk })

/-- Changes the disk, or leaves it as it is when that fails. -/
def alter (change : Disk → Except DiskError Disk) : Act Host Unit :=
  alterPartly fun disk =>
    match change disk with
    | .ok disk => (.ok (), disk)
    | .error e => (.error e, disk)

/-- Makes a folder and the folders on the way to it. -/
def makeFolders (path : String) : Act Host Unit :=
  alterPartly (·.makeFolders path)

def write (path : String) (content : Bytes) : Act Host Unit :=
  alter (·.write path content)

def append (path : String) (content : Bytes) : Act Host Unit :=
  alter (·.append path content)

end Host
end Depot
