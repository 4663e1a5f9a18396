import Depot.Json
import Depot.Bytes.Utf8

/-!
Reading JSON. The input is a list of characters with `none` for bytes that are no character; those
may only stand inside a string literal, which then denotes no text. Nothing but blanks may follow
the document.
-/
namespace Depot.Json

/-- A character of the input, `none` for bytes that are none. -/
abbrev Symbol := Option Char

/-- Space, tab and the line ends. -/
def isSpace : Symbol → Bool
  | some c => c == ' ' || c == '\n' || c == '\t' || c == '\r'
  | none => false

/-- The input from its first character that is no blank. -/
def skipSpace (cs : List Symbol) : List Symbol :=
  cs.dropWhile isSpace

/-! ### String literals -/

/-- A part of a string literal: a character, a code unit written as an escape, or stray bytes. -/
inductive Piece where
  | char (c : Char)
  | unit (code : Nat)
  | stray

/-- The value of a hexadecimal digit of either case. -/
def hexValue? : Symbol → Option Nat
  | some c =>
    if '0' ≤ c ∧ c ≤ '9' then some (c.toNat - '0'.toNat)
    else if 'a' ≤ c ∧ c ≤ 'f' then some (c.toNat - 'a'.toNat + 10)
    else if 'A' ≤ c ∧ c ≤ 'F' then some (c.toNat - 'A'.toNat + 10)
    else none
  | none => none

/-- What a backslash and a letter stand for. -/
def shortEscape? : Char → Option Char
  | '"' => some '"'
  | '\\' => some '\\'
  | '/' => some '/'
  | 'b' => some (Char.ofNat 8)
  | 'f' => some (Char.ofNat 12)
  | 'n' => some '\n'
  | 'r' => some '\r'
  | 't' => some '\t'
  | _ => none

/-- The pieces of a string literal after its opening quote, and what follows its closing quote. -/
def pieces : List Symbol → Option (List Piece × List Symbol)
  | [] => none
  | none :: cs => (pieces cs).map fun p => (.stray :: p.1, p.2)
  | some '"' :: cs => some ([], cs)
  | some '\\' :: some 'u' :: a :: b :: c :: d :: cs => do
    let code := (((← hexValue? a) * 16 + (← hexValue? b)) * 16 + (← hexValue? c)) * 16 + (← hexValue? d)
    let p ← pieces cs
    some (.unit code :: p.1, p.2)
  | some '\\' :: some e :: cs => do
    let c ← shortEscape? e
    let p ← pieces cs
    some (.char c :: p.1, p.2)
  | some c :: cs =>
    -- a backslash comes here when no character follows it
    if c = '\\' ∨ c.toNat < 0x20 then none
    else (pieces cs).map fun p => (.char c :: p.1, p.2)

/-- The text of a string literal: code units from the surrogate range count only in pairs. -/
def decode : List Piece → Option (List Char)
  | [] => some []
  | .char c :: ps => (decode ps).map (c :: ·)
  | .stray :: _ => none
  | .unit high :: .unit low :: ps =>
    if 0xd800 ≤ high ∧ high ≤ 0xdbff then
      if 0xdc00 ≤ low ∧ low ≤ 0xdfff then
        (decode ps).map (Char.ofNat ((high - 0xd800) * 0x400 + (low - 0xdc00) + 0x10000) :: ·)
      else none
    else if 0xdc00 ≤ high ∧ high ≤ 0xdfff then none
    else (decode (.unit low :: ps)).map (Char.ofNat high :: ·)
  | .unit code :: ps =>
    if 0xd800 ≤ code ∧ code ≤ 0xdfff then none
    else (decode ps).map (Char.ofNat code :: ·)

/-- A string literal after its opening quote. -/
def literal (cs : List Symbol) : Option (Option String × List Symbol) :=
  (pieces cs).map fun p => ((decode p.1).map String.ofList, p.2)

/-! ### Numbers -/

def digit? : Symbol → Option Nat
  | some c => if '0' ≤ c ∧ c ≤ '9' then some (c.toNat - '0'.toNat) else none
  | none => none

/-- The run of digits at the head of the input, and the rest. -/
def digits : List Symbol → List Nat × List Symbol
  | [] => ([], [])
  | c :: cs =>
    match digit? c with
    | some d => let p := digits cs; (d :: p.1, p.2)
    | none => ([], c :: cs)

/-- The number that decimal digits denote. -/
def ofDigits (ds : List Nat) : Nat :=
  ds.foldl (fun n d => n * 10 + d) 0

/-- Skips a fraction, if there is one; tells whether there was. -/
def fraction : List Symbol → Option (Bool × List Symbol)
  | some '.' :: cs =>
    match digits cs with
    | ([], _) => none
    | (_ :: _, rest) => some (true, rest)
  | cs => some (false, cs)

def skipSign : List Symbol → List Symbol
  | some '+' :: cs => cs
  | some '-' :: cs => cs
  | cs => cs

/-- Skips an exponent, if there is one; tells whether there was. -/
def exponent : List Symbol → Option (Bool × List Symbol)
  | some 'e' :: cs | some 'E' :: cs =>
    match digits (skipSign cs) with
    | ([], _) => none
    | (_ :: _, rest) => some (true, rest)
  | cs => some (false, cs)

/-- The whole part of a number: a zero, or digits that do not begin with one. -/
def whole (cs : List Symbol) : Option (Nat × List Symbol) :=
  match cs with
  | some '0' :: rest => some (0, rest)
  | _ =>
    match digits cs with
    | ([], _) => none
    | (ds, rest) => some (ofDigits ds, rest)

/-- A number after its sign. -/
def unsigned (negative : Bool) (cs : List Symbol) : Option (Json × List Symbol) := do
  let (n, rest) ← whole cs
  let (hasFraction, rest) ← fraction rest
  let (hasExponent, rest) ← exponent rest
  if hasFraction || hasExponent || (negative && n == 0) then some (.fractional, rest)
  else some (.integer (if negative then -(n : Int) else n), rest)

def number : List Symbol → Option (Json × List Symbol)
  | some '-' :: cs => unsigned true cs
  | cs => unsigned false cs

/-! ### Documents -/

mutual

/-- A value at the head of the input, and the rest. Each call takes a step from the first argument;
twice the length of the input always suffices. -/
def value : Nat → List Symbol → Option (Json × List Symbol)
  | 0, _ => none
  | steps + 1, cs =>
    match skipSpace cs with
    | some 'n' :: some 'u' :: some 'l' :: some 'l' :: rest => some (.null, rest)
    | some 't' :: some 'r' :: some 'u' :: some 'e' :: rest => some (.bool true, rest)
    | some 'f' :: some 'a' :: some 'l' :: some 's' :: some 'e' :: rest => some (.bool false, rest)
    | some '"' :: rest => (literal rest).map fun p => (.string p.1, p.2)
    | some '[' :: rest =>
      match skipSpace rest with
      | some ']' :: rest => some (.array [], rest)
      | rest => (items steps rest).map fun p => (.array p.1, p.2)
    | some '{' :: rest =>
      match skipSpace rest with
      | some '}' :: rest => some (.object [], rest)
      | rest => (members steps rest).map fun p => (.object p.1, p.2)
    | rest => number rest

/-- One or more items up to the closing bracket. -/
def items : Nat → List Symbol → Option (List Json × List Symbol)
  | 0, _ => none
  | steps + 1, cs =>
    match value steps cs with
    | none => none
    | some (v, rest) =>
      match skipSpace rest with
      | some ',' :: rest => (items steps rest).map fun p => (v :: p.1, p.2)
      | some ']' :: rest => some ([v], rest)
      | _ => none

/-- One or more members up to the closing brace. -/
def members : Nat → List Symbol → Option (List (Option String × Json) × List Symbol)
  | 0, _ => none
  | steps + 1, cs =>
    match skipSpace cs with
    | some '"' :: rest =>
      match literal rest with
      | none => none
      | some (k, rest) =>
        match skipSpace rest with
        | some ':' :: rest =>
          match value steps rest with
          | none => none
          | some (v, rest) =>
            match skipSpace rest with
            | some ',' :: rest => (members steps rest).map fun p => ((k, v) :: p.1, p.2)
            | some '}' :: rest => some ([(k, v)], rest)
            | _ => none
        | _ => none
    | _ => none

end

/-- The document that the symbols spell. -/
def parseSymbols (cs : List Symbol) : Option Json :=
  match value (2 * cs.length + 2) cs with
  | some (v, rest) => if (skipSpace rest).isEmpty then some v else none
  | none => none

def parse (s : String) : Option Json :=
  parseSymbols (s.toList.map some)

def parseBytes (b : Bytes) : Option Json :=
  parseSymbols (Bytes.symbols b)

theorem parseBytes_ofText (s : String) : parseBytes (Bytes.ofText s) = parse s := by
  rw [parseBytes, Bytes.symbols_ofText, parse]

end Depot.Json
