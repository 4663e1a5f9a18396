import Depot.Text.Property

/-!
Texts as they are shown inside messages: between quotes, with everything that could not be seen or
would end the quotation escaped.
-/
namespace Depot.Text

/-- The lower-case hexadecimal digits of a number. -/
def hexDigits (n : Nat) : List Char :=
  Nat.toDigits 16 n

/-- One character of a quotation: a short escape for quote, backslash, tab, line ends and NUL, a
numeric one for marks, fillers and characters without a form, otherwise the character itself. -/
def quotedChar (c : Char) : List Char :=
  if c = '"' then ['\\', '"']
  else if c = '\\' then ['\\', '\\']
  else if c = '\n' then ['\\', 'n']
  else if c = '\r' then ['\\', 'r']
  else if c = '\t' then ['\\', 't']
  else if c = Char.ofNat 0 then ['\\', '0']
  else if isExtender c || isFiller c || isUnprintable c then
    ['\\', 'u', Char.ofNat 0x7b] ++ hexDigits c.toNat ++ [Char.ofNat 0x7d]
  else [c]

def quoted (s : String) : String :=
  String.ofList ('"' :: s.toList.flatMap quotedChar ++ ['"'])

end Depot.Text
