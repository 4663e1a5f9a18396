import Depot.Bytes
import Depot.Disk.Path
import Depot.Error

/-!
A disk: a tree of folders and files, and the folder from which relative paths start. A place is the
list of names that leads to a file or folder from the root, so every place has one spelling. The
operations that take a path first find the place that it leads to, through folders that must exist.
-/
namespace Depot

/-- What is at a place. -/
inductive Node where
  | file (content : Bytes)
  | folder
  deriving DecidableEq

/-- The names on the way from the root. -/
abbrev Place := List String

/-- A disk. The root is always there; the folders on the way to a place are places of their own. -/
structure Disk where
  nodes : List (Place × Node)
  /-- Where relative paths start. -/
  here : Place

namespace Disk

/-! ### Places -/

/-- What is at a place. -/
def node? (d : Disk) (p : Place) : Option Node :=
  if p = [] then some .folder else d.nodes.lookup p

/-- The list with a node set at a place, where it was or at the end. -/
def putNode (p : Place) (n : Node) : List (Place × Node) → List (Place × Node)
  | [] => [(p, n)]
  | e :: es => if e.1 = p then (p, n) :: es else e :: putNode p n es

def put (d : Disk) (p : Place) (n : Node) : Disk :=
  { d with nodes := putNode p n d.nodes }

/-- The disk without the places that `gone` holds of. -/
def dropWhere (d : Disk) (gone : Place → Bool) : Disk :=
  { d with nodes := d.nodes.filter fun e => !gone e.1 }

/-- The names and nodes directly inside a folder, in the order in which they were made. -/
def inside (d : Disk) (p : Place) : List (String × Node) :=
  d.nodes.filterMap fun e =>
    match e.1.getLast? with
    | some name => if e.1 = p ++ [name] then some (name, e.2) else none
    | none => none

theorem lookup_putNode (p q : Place) (n : Node) (es : List (Place × Node)) :
    (putNode p n es).lookup q = if q = p then some n else es.lookup q := by
  induction es with
  | nil =>
    by_cases h : q = p
    · simp [putNode, h]
    · have : (q == p) = false := by simpa using h
      simp [putNode, h, List.lookup_cons, this]
  | cons e es ih =>
    obtain ⟨a, b⟩ := e
    by_cases ha : a = p
    · subst ha
      by_cases h : q = a
      · simp [putNode, h]
      · have : (q == a) = false := by simpa using h
        simp [putNode, List.lookup_cons, this, h]
    · by_cases h : q = a
      · subst h
        simp [putNode, ha]
      · have : (q == a) = false := by simpa using h
        simp only [putNode, ha, if_false, List.lookup_cons, this, ih]

/-- Setting a node changes its place and no other. -/
theorem node?_put (d : Disk) {p : Place} (hp : p ≠ []) (n : Node) (q : Place) :
    (d.put p n).node? q = if q = p then some n else d.node? q := by
  by_cases hq : q = []
  · subst hq
    simp [node?, Ne.symm hp]
  · simp only [node?, hq, if_false, put, lookup_putNode]

@[simp] theorem here_put (d : Disk) (p : Place) (n : Node) : (d.put p n).here = d.here := rfl

@[simp] theorem here_dropWhere (d : Disk) (gone : Place → Bool) :
    (d.dropWhere gone).here = d.here := rfl

/-! ### Finding the place of a path -/

/-- The longest name that a folder takes, in bytes. -/
def longestName : Nat := 255

/-- The longest path, in bytes. -/
def longestPath : Nat := 4095

/-- The pieces of a path between its slashes, if it is a path at all. -/
def pathPieces (path : String) : Except DiskError (List (List Char)) :=
  if Char.ofNat 0 ∈ path.toList then .error .invalidPath
  else if path.utf8ByteSize > longestPath then .error .nameTooLong
  else if path.toList = [] then .error .notFound
  else .ok (Text.pieces '/' path.toList)

def start (d : Disk) (path : String) : Place :=
  if Path.isAbsolute path then [] else d.here

/-- A place that has to be a folder. -/
def folderAt (d : Disk) (p : Place) : Except DiskError Place :=
  match d.node? p with
  | some .folder => .ok p
  | some (.file _) => .error .notAFolder
  | none => .error .notFound

/-- The name at a place, unless it is too long. -/
def placeNamed (p : Place) (name : List Char) : Except DiskError Place :=
  let name := String.ofList name
  if name.utf8ByteSize > longestName then .error .nameTooLong else .ok (p ++ [name])

/-- The place one piece further. -/
def stepInto (d : Disk) (p : Place) (piece : List Char) : Except DiskError Place :=
  if piece = [] then .ok p
  else
    -- an empty piece asks for nothing, any other for a folder to step from
    match d.folderAt p with
    | .error e => .error e
    | .ok p =>
      if piece = ['.'] then .ok p
      else if piece = ['.', '.'] then .ok p.dropLast
      else placeNamed p piece

/-- The place that some pieces lead to. -/
def walk (d : Disk) (p : Place) (pieces : List (List Char)) : Except DiskError Place :=
  pieces.foldlM (d.stepInto ·) p

/-- The node that a path leads to. -/
def find (d : Disk) (path : String) : Except DiskError (Place × Node) :=
  match pathPieces path with
  | .error e => .error e
  | .ok pieces =>
    match d.walk (d.start path) pieces with
    | .error e => .error e
    | .ok p =>
      match d.node? p with
      | none => .error .notFound
      | some (.file content) =>
        -- a slash at the end asks for a folder
        if pieces.getLast? = some [] then .error .notAFolder else .ok (p, .file content)
      | some .folder => .ok (p, .folder)

/-- Where a path would make or replace something. -/
inductive Target where
  /-- A name in a folder, with a slash behind it or not. -/
  | named (place : Place) (slash : Bool)
  /-- The root, or a folder that is reached by `.` or `..`. -/
  | fixed
  deriving DecidableEq

/-- The target of a path; the folder that it names something in must exist. -/
def target (d : Disk) (path : String) : Except DiskError Target :=
  match pathPieces path with
  | .error e => .error e
  | .ok pieces =>
    let body := (pieces.reverse.dropWhile (· = [])).reverse
    match body.getLast? with
    -- nothing but slashes
    | none => .ok .fixed
    | some last =>
      match d.walk (d.start path) body.dropLast with
      | .error e => .error e
      | .ok p =>
        match d.folderAt p with
        | .error e => .error e
        | .ok p =>
          if last = ['.'] ∨ last = ['.', '.'] then .ok .fixed
          else (placeNamed p last).map fun q => .named q (pieces.getLast? = some [])

/-! ### Questions -/

def exists? (d : Disk) (path : String) : Bool :=
  match d.find path with
  | .ok _ => true
  | .error _ => false

def isFolder (d : Disk) (path : String) : Bool :=
  match d.find path with
  | .ok (_, .folder) => true
  | _ => false

/-- The content of the file at the path. -/
def read (d : Disk) (path : String) : Except DiskError Bytes :=
  match d.find path with
  | .error e => .error e
  | .ok (_, .folder) => .error .isAFolder
  | .ok (_, .file content) => .ok content

/-- The text in the file at the path. -/
def readText (d : Disk) (path : String) : Except DiskError String :=
  match d.read path with
  | .error e => .error e
  | .ok content =>
    match Bytes.text? content with
    | some s => .ok s
    | none => .error .notText

/-- What is directly inside the folder at the path. -/
def list (d : Disk) (path : String) : Except DiskError (List (String × Node)) :=
  match d.find path with
  | .error e => .error e
  | .ok (_, .file _) => .error .notAFolder
  | .ok (p, .folder) => .ok (d.inside p)

/-! ### Changes -/

def makeFolder (d : Disk) (path : String) : Except DiskError Disk :=
  match d.target path with
  | .error e => .error e
  | .ok .fixed => .error .alreadyExists
  | .ok (.named p _) =>
    match d.node? p with
    | some _ => .error .alreadyExists
    | none => .ok (d.put p .folder)

/-- Makes a folder and the folders on the way to it, as far as they are missing. The first argument
bounds how many there can be. What was made before an error stays. -/
def makeFoldersWithin : Nat → Disk → String → Except DiskError Unit × Disk
  | 0, d, _ => (.error .notFound, d)
  | n + 1, d, path =>
    if path.toList = [] then (.ok (), d)
    else
      match d.makeFolder path with
      | .ok d => (.ok (), d)
      | .error .notFound =>
        match Path.parent? path with
        | none => (.error .notFound, d)
        | some parent =>
          match makeFoldersWithin n d parent with
          | (.error e, d) => (.error e, d)
          | (.ok (), d) =>
            -- now a path such as `a/..` leads to a folder that is there
            match d.makeFolder path with
            | .ok d => (.ok (), d)
            | .error e => (if d.isFolder path then .ok () else .error e, d)
      | .error e => (if d.isFolder path then .ok () else .error e, d)

/-- Makes a folder and the folders on the way to it, as far as they are missing. -/
def makeFolders (d : Disk) (path : String) : Except DiskError Unit × Disk :=
  d.makeFoldersWithin (path.toList.length + 1) path

/-- Changes the file at a path, which is empty if it was not there. -/
def change (d : Disk) (path : String) (f : Bytes → Bytes) : Except DiskError Disk :=
  match d.target path with
  | .error e => .error e
  | .ok .fixed => .error .isAFolder
  | .ok (.named p slash) =>
    if slash then .error .isAFolder
    else
      match d.node? p with
      | some .folder => .error .isAFolder
      | some (.file content) => .ok (d.put p (.file (f content)))
      | none => .ok (d.put p (.file (f [])))

/-- Writes a file, in place of what it held. -/
def write (d : Disk) (path : String) (content : Bytes) : Except DiskError Disk :=
  d.change path fun _ => content

def append (d : Disk) (path : String) (content : Bytes) : Except DiskError Disk :=
  d.change path (· ++ content)

def removeFile (d : Disk) (path : String) : Except DiskError Disk :=
  match d.find path with
  | .error e => .error e
  | .ok (_, .folder) => .error .isAFolder
  | .ok (p, .file _) => .ok (d.dropWhere (· = p))

/-- Removes the folder at a path with everything in it. A path that ends in `.` or `..` empties the
folder that it leads to; that folder itself stays, which the disk reports for `.`. -/
def removeFolder (d : Disk) (path : String) : Except DiskError Unit × Disk :=
  match d.find path with
  | .error e => (.error e, d)
  | .ok (_, .file _) => (.error .notAFolder, d)
  | .ok (p, .folder) =>
    match d.target path with
    | .error e => (.error e, d)
    | .ok (.named _ _) => (.ok (), d.dropWhere fun q => p.isPrefixOf q)
    | .ok .fixed =>
      let emptied := d.dropWhere fun q => p.isPrefixOf q && q != p
      if (Text.pieces '/' path.toList).filter (· ≠ []) |>.getLast? |> (· = some ['.'])
      then (.error .invalidPath, emptied)
      else (.ok (), emptied)

/-- Moves the file at a place to a path, in place of a file there. -/
def moveFile (d : Disk) (source path : String) : Except DiskError Disk :=
  match d.find source with
  | .error e => .error e
  | .ok (_, .folder) => .error .isAFolder
  | .ok (p, .file content) =>
    match d.target path with
    | .error e => .error e
    | .ok .fixed => .error .busy
    | .ok (.named q slash) =>
      if slash then .error .notAFolder
      else
        match d.node? q with
        | some .folder => .error .isAFolder
        | _ => .ok ((d.dropWhere (· = p)).put q (.file content))

end Disk
end Depot
