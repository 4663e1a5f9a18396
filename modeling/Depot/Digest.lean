import Depot.Bytes.Sha256
import Depot.Text.Split

/-!
Content digests: the name that a byte string gets from its content, `sha256:` and 64 hexadecimal
digits. Stored files are named by the digits alone.
-/
namespace Depot.Digest

/-- The algorithm part of every digest that is computed here. -/
def algorithm : String := "sha256:"

/-- The hexadecimal digits of the hash of a byte string. -/
def hexOf (b : Bytes) : String :=
  Bytes.hex (Bytes.Sha256.hash b)

def ofBytes (b : Bytes) : String :=
  algorithm ++ hexOf b

/-- What follows `sha256:`; a text without it stands for itself. -/
def encoded (digest : String) : String :=
  match Text.after? algorithm.toList digest.toList with
  | some rest => String.ofList rest
  | none => digest

theorem encoded_ofBytes (b : Bytes) : encoded (ofBytes b) = hexOf b := by
  simp [encoded, ofBytes, Text.after?_append]

theorem length_hexOf (b : Bytes) : (hexOf b).length = 64 := by
  rw [hexOf, Bytes.length_hex, Bytes.Sha256.length_hash]

end Depot.Digest
