import Depot.Bytes

/-!
The cyclic checksum that closes a gzip stream: the remainder of the content, read as a polynomial
over two elements with the lowest bit of each byte first, with the start and the result inverted.
-/
namespace Depot.Gzip

/-- The divisor, its highest power left out and the lowest bit last. -/
def divisor : UInt32 := 0xedb88320

/-- One step of the division. -/
def divide (r : UInt32) : UInt32 :=
  if r &&& 1 = 1 then (r >>> 1) ^^^ divisor else r >>> 1

/-- The remainder after a further byte. -/
def remainderAfter (r : UInt32) (b : UInt8) : UInt32 :=
  divide (divide (divide (divide (divide (divide (divide (divide (r ^^^ b.toUInt32))))))))

/-- The checksum of a byte string. -/
def checksum (b : Bytes) : UInt32 :=
  b.foldl remainderAfter 0xffffffff ^^^ 0xffffffff

example : checksum [0x61] = 0xe8b7be43 := by decide +kernel

end Depot.Gzip
