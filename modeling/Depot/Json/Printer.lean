import Depot.Json

/-!
Writing JSON, either on one line without blanks or with each item on a line of its own, indented by
two blanks a level. Strings escape the quote, the backslash and the control characters and nothing
else.
-/
namespace Depot.Json

def hexDigit (n : Nat) : Char :=
  Nat.digitChar n

/-- A character as it is written in a string literal. -/
def escapeChar (c : Char) : List Char :=
  if c = '"' then ['\\', '"']
  else if c = '\\' then ['\\', '\\']
  else if c = '\n' then ['\\', 'n']
  else if c = '\r' then ['\\', 'r']
  else if c = '\t' then ['\\', 't']
  else if c = Char.ofNat 8 then ['\\', 'b']
  else if c = Char.ofNat 12 then ['\\', 'f']
  else if c.toNat < 0x20 then ['\\', 'u', '0', '0', hexDigit (c.toNat / 16), hexDigit (c.toNat % 16)]
  else [c]

/-- A string literal; one that denotes no text is written as an unpaired surrogate. -/
def renderText : Option String → List Char
  | some s => '"' :: s.toList.flatMap escapeChar ++ ['"']
  | none => ['"', '\\', 'u', 'd', '8', '0', '0', '"']

/-- The decimal digits of an integer after its sign. -/
def renderInteger (n : Int) : List Char :=
  if n < 0 then '-' :: Nat.toDigits 10 n.natAbs else Nat.toDigits 10 n.natAbs

/-- What stands between the parts of a document: before each item at a depth, and after a key. -/
structure Layout where
  lineBreak : Nat → List Char
  colon : List Char

/-- All on one line, no blanks. -/
def Layout.compact : Layout :=
  ⟨fun _ => [], [':']⟩

/-- An item a line, two blanks a level, a blank after each colon. -/
def Layout.indented : Layout :=
  ⟨fun depth => '\n' :: List.replicate (2 * depth) ' ', [':', ' ']⟩

mutual

/-- The text of a document that stands at a depth. -/
def renderAt (l : Layout) (depth : Nat) : Json → List Char
  | .null => ['n', 'u', 'l', 'l']
  | .bool true => ['t', 'r', 'u', 'e']
  | .bool false => ['f', 'a', 'l', 's', 'e']
  | .integer n => renderInteger n
  | .fractional => ['-', '0']
  | .string t => renderText t
  | .array [] => ['[', ']']
  | .array (x :: xs) =>
    '[' :: (l.lineBreak (depth + 1) ++ renderAt l (depth + 1) x ++ renderItems l (depth + 1) xs ++
      l.lineBreak depth ++ [']'])
  | .object [] => ['{', '}']
  | .object ((k, v) :: ms) =>
    '{' :: (l.lineBreak (depth + 1) ++ renderText k ++ l.colon ++ renderAt l (depth + 1) v ++
      renderMembers l (depth + 1) ms ++ l.lineBreak depth ++ ['}'])

/-- The items after the first, each behind a comma. -/
def renderItems (l : Layout) (depth : Nat) : List Json → List Char
  | [] => []
  | x :: xs => ',' :: (l.lineBreak depth ++ renderAt l depth x ++ renderItems l depth xs)

/-- The members after the first, each behind a comma. -/
def renderMembers (l : Layout) (depth : Nat) : List (Option String × Json) → List Char
  | [] => []
  | (k, v) :: ms =>
    ',' :: (l.lineBreak depth ++ renderText k ++ l.colon ++ renderAt l depth v ++
      renderMembers l depth ms)

end

def compact (j : Json) : String :=
  String.ofList (renderAt .compact 0 j)

def pretty (j : Json) : String :=
  String.ofList (renderAt .indented 0 j)

end Depot.Json
