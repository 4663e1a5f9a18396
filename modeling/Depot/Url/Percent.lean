import Depot.Bytes

/-!
Percent encoding: a byte as a percent sign and two hexadecimal digits. Which characters are encoded
depends on the part of a URL that they stand in.
-/
namespace Depot.Percent

def hexDigit (n : Nat) : Char :=
  if n < 10 then Char.ofNat (0x30 + n) else Char.ofNat (0x37 + n)

def hexValue? (c : Char) : Option Nat :=
  if '0' ≤ c ∧ c ≤ '9' then some (c.toNat - '0'.toNat)
  else if 'a' ≤ c ∧ c ≤ 'f' then some (c.toNat - 'a'.toNat + 10)
  else if 'A' ≤ c ∧ c ≤ 'F' then some (c.toNat - 'A'.toNat + 10)
  else none

def encodeByte (b : UInt8) : List Char :=
  ['%', hexDigit (b.toNat / 16), hexDigit (b.toNat % 16)]

def bytesOf (c : Char) : Bytes :=
  Bytes.ofText (String.ofList [c])

/-- The characters with those that `escaped` holds of encoded. -/
def encode (escaped : Char → Bool) (cs : List Char) : List Char :=
  cs.flatMap fun c => if escaped c then (bytesOf c).flatMap encodeByte else [c]

/-- The bytes that the characters stand for; a percent sign without two digits stands for itself. -/
def decode : List Char → Bytes
  | [] => []
  | '%' :: a :: b :: rest =>
    match hexValue? a, hexValue? b with
    | some x, some y => (x * 16 + y).toUInt8 :: decode rest
    | _, _ => 0x25 :: decode (a :: b :: rest)
  | c :: rest => bytesOf c ++ decode rest

/-! ### What is encoded where -/

/-- Controls, and everything outside ASCII. -/
def isOutside (c : Char) : Bool :=
  c.toNat < 0x20 || c.toNat ≥ 0x7f

/-- What is encoded in a query. -/
def inQuery (c : Char) : Bool :=
  isOutside c || [' ', '"', '#', '<', '>', '\''].contains c

/-- What is encoded in a path. -/
def inPath (c : Char) : Bool :=
  isOutside c || [' ', '"', '#', '<', '>', '?', '`', '\x7b', '\x7d'].contains c

/-- What is encoded in a user name or a password. -/
def inCredentials (c : Char) : Bool :=
  inPath c || ['/', ':', ';', '=', '@', '[', '\\', ']', '^', '|'].contains c

/-- What is encoded in a form, blanks apart. -/
def inForm (c : Char) : Bool :=
  !(c.isAlphanum || ['*', '-', '.', '_', ' '].contains c)

/-- A value as it is written in a form: blanks as plus signs. -/
def encodeForm (cs : List Char) : List Char :=
  (encode inForm cs).map fun c => if c = ' ' then '+' else c

end Depot.Percent
