import Depot.Bytes.Utf8
import Depot.Text.Blank

/-!
The header block of a tar member: 512 bytes with fields at fixed places. Numbers are written in
octal, or in base 256 when the first bit of the field is set; the checksum is the sum of all bytes
with the checksum field itself read as blanks.
-/
namespace Depot.Tar

def blockSize : Nat := 512

/-- A size rounded up to whole blocks. -/
def roundUp (n : Nat) : Nat := (n + 511) / 512 * 512

def slice (header : Bytes) (offset length : Nat) : Bytes :=
  (header.drop offset).take length

/-- The bytes of a field before its first NUL. -/
def untilNul (field : Bytes) : Bytes :=
  field.takeWhile (· ≠ 0)

/-! ### Numbers -/

def octalDigit? (c : Char) : Option Nat :=
  if '0' ≤ c ∧ c ≤ '7' then some (c.toNat - 0x30) else none

/-- The number that octal digits denote: one digit or more, and less than 2^64. -/
def octalDigits? (digits : List Char) : Option Nat :=
  if digits = [] then none
  else
    (digits.mapM octalDigit?).bind fun ds =>
      let n := ds.foldl (fun n d => n * 8 + d) 0
      if n < UInt64.size then some n else none

/-- The number in an octal field: a text up to the first NUL, in which blanks around the digits and a
plus before them are passed over. -/
def octal? (field : Bytes) : Option Nat :=
  (Bytes.text? (untilNul field)).bind fun text =>
    match Text.trim text.toList with
    | '+' :: digits => octalDigits? digits
    | digits => octalDigits? digits

/-- The number in a field in base 256: its last eight bytes. -/
def base256 (field : Bytes) : Nat :=
  (field.drop (field.length - 8)).foldl (fun n b => n * 256 + b.toNat) 0

def number? (field : Bytes) : Option Nat :=
  match field with
  | [] => none
  | b :: _ => if b &&& 0x80 ≠ 0 then some (base256 field) else octal? field

/-- The number in octal, padded to `width` digits, with a NUL behind it. -/
def octalField (width n : Nat) : Bytes :=
  ((List.range width).map fun i => (0x30 + n / Nat.pow 8 (width - 1 - i) % 8).toUInt8) ++ [0]

/-- The last `width` digits of a number in base 256. -/
def bigBytes : Nat → Nat → Bytes
  | 0, _ => []
  | width + 1, n => bigBytes width (n / 256) ++ [(n % 256).toUInt8]

/-- A size: eleven octal digits and a NUL as long as they suffice, then base 256. -/
def sizeField (n : Nat) : Bytes :=
  if n < Nat.pow 8 11 then octalField 11 n else 0x80 :: 0 :: 0 :: 0 :: bigBytes 8 n

/-! ### Headers -/

/-- The sum of the bytes of a header, the checksum field read as blanks. -/
def checksum (header : Bytes) : Nat :=
  ((header.take 148).foldl (fun n b => n + b.toNat) 0) +
    ((header.drop 156).foldl (fun n b => n + b.toNat) 0) + 8 * 0x20

/-- The dialects of the format, told apart by the magic bytes. -/
inductive Dialect where
  | old
  | ustar
  | gnu
  deriving DecidableEq

def dialect (header : Bytes) : Dialect :=
  if slice header 257 8 = [0x75, 0x73, 0x74, 0x61, 0x72, 0x20, 0x20, 0] then .gnu
  else if slice header 257 8 = [0x75, 0x73, 0x74, 0x61, 0x72, 0, 0x30, 0x30] then .ustar
  else .old

/-- The byte that tells what kind of member follows. -/
def kindByte (header : Bytes) : UInt8 :=
  header.getD 156 0

/-- The name in a header. The ustar dialect may continue it in front. -/
def headerName (header : Bytes) : Bytes :=
  let name := untilNul (slice header 0 100)
  let front := untilNul (slice header 345 155)
  if dialect header = .ustar ∧ front ≠ [] then front ++ 0x2f :: name else name

end Depot.Tar
