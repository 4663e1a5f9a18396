import Depot.Gzip.Checksum
import Depot.Gzip.Inflate

/-!
Gzip streams: a header, deflated data, and a checksum and the size of the content. They are read in
whatever form.
-/
namespace Depot.Gzip

/-- The longest name or comment in a header. -/
def longestText : Nat := 65535

/-- What follows the first NUL, before which there are no more than `room` bytes. -/
def afterNul? : Nat → Bytes → Option Bytes
  | _, [] => none
  | room, b :: rest =>
    if b = 0 then some rest
    else
      match room with
      | 0 => none
      | room + 1 => afterNul? room rest

/-- What follows a part that the flags announce by a bit. -/
def skipIf? (flags : UInt8) (bit : Nat) (skip : Bytes → Option Bytes) (b : Bytes) : Option Bytes :=
  if flags.toNat.testBit bit then skip b else some b

/-- What follows a header. -/
def afterHeader? (b : Bytes) : Option Bytes :=
  match b with
  | 0x1f :: 0x8b :: 8 :: flags :: _ :: _ :: _ :: _ :: _ :: _ :: rest => do
    -- the upper bits are reserved, and the parts come in an order of their own
    if flags ≥ 0x20 then none
    let rest ← skipIf? flags 2 (fun r =>
      let n := littleNumber (r.take 2)
      if r.length < 2 + n then none else some (r.drop (2 + n))) rest
    let rest ← skipIf? flags 3 (afterNul? longestText) rest
    let rest ← skipIf? flags 4 (afterNul? longestText) rest
    skipIf? flags 1 (fun r =>
      let sum := (checksum (b.take (b.length - r.length))).toNat % 65536
      if r.length < 2 ∨ littleNumber (r.take 2) ≠ sum then none else some (r.drop 2)) rest
  | _ => none

/-- The content of a stream; what follows the stream is passed over. -/
def decode? (b : Bytes) : Option Bytes := do
  let (data, rest) ← inflate? (← afterHeader? b)
  if rest.length < 8 then none
  else if littleNumber (rest.take 4) ≠ (checksum data).toNat then none
  else if littleNumber ((rest.drop 4).take 4) ≠ data.length % UInt32.size then none
  else some data

/-- What makes streams: of a content, some stream that is read as this content. -/
structure Encoder where
  encode : Bytes → Bytes
  decode?_encode : ∀ data, decode? (encode data) = some data

end Depot.Gzip
