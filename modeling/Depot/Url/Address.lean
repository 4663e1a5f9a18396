import Depot.Bytes.Utf8
import Depot.Text.Split
import Depot.Url.Percent

/-!
The hosts of URLs: names, and addresses of the two versions of the internet protocol, each in one
spelling. Names are of ASCII here.
-/
namespace Depot.Url

/-- Why a text is no URL. -/
inductive Malformation where
  | emptyHost
  | invalidName
  | invalidPort
  | invalidAddress4
  | invalidAddress6
  | noBase
  deriving DecidableEq

def Malformation.message : Malformation → String
  | .emptyHost => "empty host"
  | .invalidName => "invalid international domain name"
  | .invalidPort => "invalid port number"
  | .invalidAddress4 => "invalid IPv4 address"
  | .invalidAddress6 => "invalid IPv6 address"
  | .noBase => "relative URL without a base"

/-- The number that digits of a base denote. -/
def number? (base : Nat) (digits : List Char) : Option Nat :=
  digits.foldlM (fun n c => (Percent.hexValue? c).bind fun d =>
    if d < base then some (n * base + d) else none) 0

/-! ### Addresses of version 4 -/

/-- A number of an address: decimal, octal behind a zero, hexadecimal behind `0x`. -/
def addressNumber? (cs : List Char) : Option Nat :=
  match cs with
  | [] => none
  | '0' :: 'x' :: digits => number? 16 digits
  | '0' :: 'X' :: digits => number? 16 digits
  | '0' :: digits => number? 8 digits
  | digits => number? 10 digits

/-- The pieces of a name between its dots, without an empty one at the end. -/
def labels (name : List Char) : List (List Char) :=
  let pieces := Text.pieces '.' name
  if pieces.length > 1 ∧ pieces.getLast? = some [] then pieces.dropLast else pieces

/-- The last piece of a name is a number, so the name has to be an address. -/
def endsInNumber (name : List Char) : Bool :=
  match (labels name).getLast? with
  | none => false
  | some last =>
    (last ≠ [] && last.all Char.isDigit) || (addressNumber? last).isSome

/-- The value of an address: every number but the last is a byte, and the last fills the rest. -/
def address4Value? (numbers : List Nat) : Option Nat :=
  match numbers.getLast? with
  | none => none
  | some last =>
    let front := numbers.dropLast
    if front.length > 3 ∨ front.any (· > 255) ∨ last ≥ Nat.pow 256 (4 - front.length) then none
    else some (front.foldl (fun n x => n * 256 + x) 0 * Nat.pow 256 (4 - front.length) + last)

def renderAddress4 (value : Nat) : String :=
  ".".intercalate ([3, 2, 1, 0].map fun i => toString (value / Nat.pow 256 i % 256))

def address4 (name : List Char) : Except Malformation String :=
  match (labels name).mapM addressNumber? |>.bind address4Value? with
  | some value => .ok (renderAddress4 value)
  | none => .error .invalidAddress4

/-! ### Addresses of version 6 -/

/-- A group of up to four hexadecimal digits. -/
def group? (cs : List Char) : Option Nat :=
  if cs = [] ∨ cs.length > 4 then none else number? 16 cs

/-- A decimal byte without leading zeros. -/
def byte? (cs : List Char) : Option Nat :=
  if cs = [] ∨ cs.length > 3 ∨ (cs.length > 1 ∧ cs.head? = some '0') then none
  else (number? 10 cs).bind fun n => if n < 256 then some n else none

/-- The two groups that four decimal bytes stand for. -/
def embedded? (cs : List Char) : Option (List Nat) :=
  match (Text.pieces '.' cs).mapM byte? with
  | some [a, b, c, d] => some [a * 256 + b, c * 256 + d]
  | _ => none

/-- The groups of a list; the last may be given by decimal bytes if `isEnd`. -/
def groups? (isEnd : Bool) : List (List Char) → Option (List Nat)
  | [] => some []
  | [last] =>
    match group? last with
    | some g => some [g]
    | none => if isEnd then embedded? last else none
  | g :: gs => do
    let g ← group? g
    let gs ← groups? isEnd gs
    some (g :: gs)

/-- What stands before and behind the first pair of colons. -/
def cutPair : List Char → Option (List Char × List Char)
  | ':' :: ':' :: rest => some ([], rest)
  | c :: rest => (cutPair rest).map fun p => (c :: p.1, p.2)
  | [] => none

/-- The groups of a text, none for the empty text. -/
def groupList? (isEnd : Bool) (cs : List Char) : Option (List Nat) :=
  if cs = [] then some [] else groups? isEnd (Text.pieces ':' cs)

/-- The eight groups of an address. A pair of colons stands for one or more groups of zero. -/
def address6Groups? (cs : List Char) : Option (List Nat) :=
  match cutPair cs with
  | none => (groupList? true cs).bind fun gs => if gs.length = 8 then some gs else none
  | some (front, back) => do
    let front ← groupList? false front
    let back ← groupList? true back
    let missing := 8 - (front.length + back.length)
    if missing = 0 then none else some (front ++ List.replicate missing 0 ++ back)

/-- The length of the run of zeros at the head of a list. -/
def zeroRun (gs : List Nat) : Nat :=
  (gs.takeWhile (· = 0)).length

/-- Where the first of the longest runs of zeros begins, if it has two or more. -/
def longestRun? (gs : List Nat) : Option (Nat × Nat) :=
  let runs := (List.range gs.length).map fun i => (i, zeroRun (gs.drop i))
  -- a run as long as the best so far does not replace it
  runs.foldl (fun best r =>
    if r.2 ≥ 2 ∧ (best.all fun b => r.2 > b.2) then some r else best) none

def renderGroups (gs : List Nat) : List Char :=
  ((gs.map (Nat.toDigits 16)).intersperse [':']).flatten

/-- An address in brackets, its longest run of zeros left out. -/
def renderAddress6 (gs : List Nat) : String :=
  let text :=
    match longestRun? gs with
    | none => renderGroups gs
    | some (i, n) => renderGroups (gs.take i) ++ [':', ':'] ++ renderGroups (gs.drop (i + n))
  String.ofList ('[' :: text ++ [']'])

/-! ### Hosts -/

/-- A character that no name has. -/
def isForbidden (c : Char) : Bool :=
  Percent.isOutside c ||
    [' ', '#', '/', ':', '<', '>', '?', '@', '[', '\\', ']', '^', '|', '%'].contains c

/-- The host that a text spells, in lower case. -/
def parseHost (cs : List Char) : Except Malformation String :=
  match cs with
  | [] => .error .emptyHost
  | '[' :: rest =>
    if rest.getLast? = some ']' then
      match address6Groups? rest.dropLast with
      | some gs => .ok (renderAddress6 gs)
      | none => .error .invalidAddress6
    else .error .invalidAddress6
  | cs =>
    match Bytes.text? (Percent.decode cs) with
    | none => .error .invalidName
    | some name =>
      let name := name.toList.map Char.toLower
      if name.any isForbidden then .error .invalidName
      else if endsInNumber name then address4 name
      else .ok (String.ofList name)

end Depot.Url
