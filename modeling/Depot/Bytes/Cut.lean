import Depot.Bytes.Utf8

/-!
Reading the bytes of a text where they are: one at a place, all from a place on, or a piece between
two places. Not every place can be asked for, and a piece must not divide a character. A program
that tries is stopped; here a `Fault` says by what.
-/
namespace Depot.Bytes

/-- What stops a program that reads a text by its bytes. -/
inductive Fault where
  /-- There are not as many bytes. -/
  | beyondEnd (i : Nat)
  /-- A piece does not begin and end between characters. -/
  | dividedCharacter (start stop : Nat)
  /-- A loop does not come to an end. -/
  | endless
  deriving DecidableEq

def ofChars (cs : List Char) : Bytes :=
  cs.flatMap String.utf8EncodeChar

def byteAt (b : Bytes) (i : Nat) : Except Fault UInt8 :=
  match b[i]? with
  | some x => .ok x
  | none => .error (.beyondEnd i)

/-- The bytes from a place on. -/
def behind (b : Bytes) (start : Nat) : Except Fault Bytes :=
  if start ≤ b.length then .ok (b.drop start) else .error (.beyondEnd start)

/-- Whether a place is at either end of a text or between two of its characters. -/
def isBoundary (b : Bytes) (i : Nat) : Bool :=
  match b[i]? with
  | some x => i = 0 || !isContinuation x
  | none => i = b.length

/-- The piece of a text between two places. -/
def piece (b : Bytes) (start stop : Nat) : Except Fault Bytes :=
  if start ≤ stop ∧ isBoundary b start ∧ isBoundary b stop then
    .ok ((b.drop start).take (stop - start))
  else .error (.dividedCharacter start stop)

end Depot.Bytes
