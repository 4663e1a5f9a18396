import Depot.Bytes

/-!
Bytes read bit by bit, the lowest bit of each byte first. The bits that are left of a byte which has
been begun are kept apart, so that reading can go on at the next byte.
-/
namespace Depot.Gzip

/-- What is still to be read: the rest of the byte that was begun, and the bytes after it. -/
structure Bits where
  begun : List Bool
  rest : Bytes

namespace Bits

def ofBytes (b : Bytes) : Bits := ⟨[], b⟩

/-- The bits of a byte, the lowest first. -/
def ofByte (b : UInt8) : List Bool :=
  (List.range 8).map b.toNat.testBit

def next? (s : Bits) : Option (Bool × Bits) :=
  match s.begun, s.rest with
  | b :: begun, rest => some (b, ⟨begun, rest⟩)
  | [], [] => none
  | [], x :: rest =>
    match ofByte x with
    | b :: begun => some (b, ⟨begun, rest⟩)
    | [] => none

/-- The number in the next `width` bits, the lowest first. -/
def number? : Nat → Bits → Option (Nat × Bits)
  | 0, s => some (0, s)
  | width + 1, s => do
    let (b, s) ← s.next?
    let (n, s) ← number? width s
    some (b.toNat + 2 * n, s)

/-- The bits from the next byte on. -/
def align (s : Bits) : Bytes := s.rest

/-- How many bits are left. -/
def size (s : Bits) : Nat := s.begun.length + 8 * s.rest.length

end Bits
end Depot.Gzip
