import Depot.Tar.Header

/-!
Writing tar files in the GNU dialect: every member is a plain file with mode 0644 and without owner
and time, and two blocks of zeros end the file.
-/
namespace Depot.Tar

/-- A file to be written under a name of at most a hundred bytes. -/
structure File where
  name : Bytes
  data : Bytes
  deriving DecidableEq

/-- A field of a given size, filled up with NULs. -/
def fill (size : Nat) (field : Bytes) : Bytes :=
  field.take size ++ List.replicate (size - field.length) 0

/-- The parts of a header before and behind the checksum field. -/
def headerParts (f : File) : Bytes × Bytes :=
  (fill 100 f.name ++ octalField 7 0o644 ++ fill 8 [] ++ fill 8 [] ++
      sizeField f.data.length ++ octalField 11 0,
    fill 101 [] ++ [0x75, 0x73, 0x74, 0x61, 0x72, 0x20, 0x20, 0] ++ fill 247 [])

def header (f : File) : Bytes :=
  let (front, back) := headerParts f
  let sum := (front ++ back).foldl (fun n b => n + b.toNat) (8 * 0x20)
  front ++ octalField 7 sum ++ back

/-- The content of a file up to a block end. -/
def paddedData (data : Bytes) : Bytes :=
  data ++ List.replicate (roundUp data.length - data.length) 0

def member (f : File) : Bytes :=
  header f ++ paddedData f.data

/-- The blocks that end a tar file. -/
def ending : Bytes :=
  List.replicate 1024 0

def encode (files : List File) : Bytes :=
  files.flatMap member ++ ending

end Depot.Tar
