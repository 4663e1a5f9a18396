import Depot.Bytes.Cut
import Depot.Text.Split

/-!
The words of references: what a path component, a domain, a tag and a digest are made of. Domains
and digests are tested by their characters. Path components and tags are read by their bytes, at
places that must be there, and separators are cut out of a component; the tests of these can be
stopped by a `Bytes.Fault`, though none ever is.
-/
namespace Depot.Reference

/-- An ASCII letter in lower case or an ASCII digit. -/
def isLowerAlnum (c : Char) : Bool :=
  c.isLower || c.isDigit

/-- An ASCII letter or an ASCII digit. -/
def isAlnum (c : Char) : Bool :=
  c.isUpper || c.isLower || c.isDigit

/-- A digit in base 16, of either case. -/
def isHexDigit (c : Char) : Bool :=
  c.isDigit || ('a' ≤ c && c ≤ 'f') || ('A' ≤ c && c ≤ 'F')

/-- The number of bytes of a text in UTF-8. -/
def byteLength (cs : List Char) : Nat :=
  (String.ofList cs).utf8ByteSize

/-! ### Path components -/

/-- The byte of a lower-case ASCII letter or of an ASCII digit. -/
def isWordByte (x : UInt8) : Bool :=
  (0x61 ≤ x && x ≤ 0x7a) || (0x30 ≤ x && x ≤ 0x39)

/-- `.`, `_`, `__` or dashes. -/
def isSeparator (b : Bytes) : Bool :=
  b == Bytes.ofChars ['.'] || b == Bytes.ofChars ['_'] || b == Bytes.ofChars ['_', '_'] ||
    b.all (· == '-'.toUInt8)

/-- Where a scan of a path component stands: at a place in a word or behind a separator, at a place
in a separator that began before, or at its end. -/
inductive Cursor where
  | between (i : Nat)
  | inside (start i : Nat)
  | done (accepted : Bool)
  deriving DecidableEq

namespace Cursor

/-- Goes on behind what is between two words, if it is a separator. -/
def leave (b : Bytes) (start i : Nat) : Except Bytes.Fault Cursor := do
  if isSeparator (← b.piece start i) then return between i else return done false

/-- The scan after a look at one more place. -/
def step (b : Bytes) : Cursor → Except Bytes.Fault Cursor
  | between i =>
    if i < b.length then do
      if isWordByte (← b.byteAt i) then return between (i + 1) else return inside i i
    else return done true
  -- a separator is what lies between two bytes of words, looked at as a whole by `leave`
  | inside start i =>
    if i < b.length then do
      if isWordByte (← b.byteAt i) then leave b start i else return inside start (i + 1)
    else leave b start i
  | done accepted => return done accepted

/-- What the scan ends with, after a number of steps at most. -/
def run (b : Bytes) : Nat → Cursor → Except Bytes.Fault Bool
  | _, done accepted => .ok accepted
  | 0, _ => .error .endless
  | n + 1, c => c.step b >>= run b n

end Cursor

/-- Words of lower-case letters and digits, joined by `.`, `_`, `__` or dashes. The scan is granted
three steps for each byte. -/
def scanComponent (b : Bytes) : Except Bytes.Fault Bool :=
  if b.isEmpty then return false
  else do
    if !isWordByte (← b.byteAt 0) then return false
    else if !isWordByte (← b.byteAt (b.length - 1)) then return false
    else Cursor.run b (3 * b.length + 2) (.between 0)

/-! ### Domains -/

/-- Letters, digits and dashes, with no dash at either end. -/
def isLabel (cs : List Char) : Bool :=
  !cs.isEmpty && cs.all (fun c => isAlnum c || c == '-') && cs.head? != some '-' &&
    cs.getLast? != some '-'

/-- Labels joined by dots. -/
def isHost (cs : List Char) : Bool :=
  (Text.pieces '.' cs).all isLabel

/-- One digit or more. -/
def isPort (cs : List Char) : Bool :=
  !cs.isEmpty && cs.all Char.isDigit

/-- A host, with a number behind a colon if there is one. -/
def isDomain (cs : List Char) : Bool :=
  match Text.cutLast ':' cs with
  | some (host, digits) => isPort digits && isHost host
  | none => isHost cs

/-- Whether the first component of a name stands for a registry. -/
def looksLikeDomain (cs : List Char) : Bool :=
  cs.contains '.' || cs.contains ':' || cs == "localhost".toList

/-! ### Tags and digests -/

/-- The byte of an ASCII letter, of an ASCII digit or of an underscore. -/
def isTagByte (x : UInt8) : Bool :=
  isWordByte x || (0x41 ≤ x && x ≤ 0x5a) || x == '_'.toUInt8

/-- A letter, a digit or an underscore, then up to 127 of these, dots and dashes. -/
def scanTag (b : Bytes) : Except Bytes.Fault Bool :=
  if b.isEmpty || b.length > 128 then return false
  else do
    if !isTagByte (← b.byteAt 0) then return false
    else
      return (← b.behind 1).all fun x => isTagByte x || x == '.'.toUInt8 || x == '-'.toUInt8

/-- A character of the name of a digest algorithm. -/
def isAlgorithmChar (c : Char) : Bool :=
  isLowerAlnum c || c == '+' || c == '.' || c == '_' || c == '-'

/-- The name of an algorithm, a colon, and 32 hexadecimal digits or more. -/
def isDigest (cs : List Char) : Bool :=
  match Text.cutFirst ':' cs with
  | some (algorithm, hex) =>
    !algorithm.isEmpty && algorithm.all isAlgorithmChar && 32 ≤ hex.length && hex.all isHexDigit
  | none => false

end Depot.Reference
