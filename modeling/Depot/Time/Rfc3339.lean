import Depot.Time
import Depot.Text.Blank

/-!
Instants as text. They are written as RFC 3339 has it, in universal time, with as many fraction
digits as needed out of 0, 3, 6 and 9. They are read more liberally: fields may have fewer digits,
blanks may stand around them, the year may carry a sign, the zone may be any offset below a day, and
fraction digits beyond the ninth are passed over.
-/
namespace Depot.Instant

/-! ### Writing -/

/-- The last `width` decimal digits of a number. -/
def padded : Nat → Nat → List Char
  | 0, _ => []
  | width + 1, n => padded width (n / 10) ++ [Nat.digitChar (n % 10)]

/-- A year: four digits, or a sign and at least four digits outside 0 to 9999. -/
def yearText (year : Int) : List Char :=
  if 0 ≤ year ∧ year ≤ 9999 then padded 4 year.toNat
  else
    let digits := Nat.toDigits 10 year.natAbs
    (if year < 0 then '-' else '+') :: (List.replicate (4 - digits.length) '0' ++ digits)

def fractionText (nano : Nat) : List Char :=
  if nano = 0 then []
  else if nano % 1000000 = 0 then '.' :: padded 3 (nano / 1000000)
  else if nano % 1000 = 0 then '.' :: padded 6 (nano / 1000)
  else '.' :: padded 9 nano

/-- Date and time of day, without a zone. -/
def stamp (t : Instant) : List Char :=
  yearText t.date.year ++ '-' :: padded 2 t.date.month ++ '-' :: padded 2 t.date.day ++
    'T' :: padded 2 t.hour ++ ':' :: padded 2 t.minute ++
    ':' :: padded 2 (t.second + t.nano / 1000000000) ++ fractionText (t.nano % 1000000000)

/-- The instant with the zone written as `Z`. -/
def render (t : Instant) : String :=
  String.ofList (t.stamp ++ ['Z'])

/-- The instant with the zone written as an offset of zero. -/
def renderOffset (t : Instant) : String :=
  String.ofList (t.stamp ++ ['+', '0', '0', ':', '0', '0'])

/-! ### Reading -/

def digit? (c : Char) : Option Nat :=
  if '0' ≤ c ∧ c ≤ '9' then some (c.toNat - '0'.toNat) else none

/-- The number that the leading digits denote, at most `limit` of them: its value, how many digits
there were, and the rest. -/
def leading : Nat → Nat → Nat → List Char → Nat × Nat × List Char
  | 0, value, count, cs => (value, count, cs)
  | _ + 1, value, count, [] => (value, count, [])
  | limit + 1, value, count, c :: cs =>
    match digit? c with
    | some d => leading limit (value * 10 + d) (count + 1) cs
    | none => (value, count, c :: cs)

/-- A number of one to `limit` digits. -/
def number? (limit : Nat) (cs : List Char) : Option (Nat × List Char) :=
  match leading limit 0 0 cs with
  | (_, 0, _) => none
  | (value, _, rest) => some (value, rest)

/-- A field of one or two digits behind any blanks. -/
def field? (cs : List Char) : Option (Nat × List Char) :=
  number? 2 (Text.trimStart cs)

/-- A year behind any blanks: up to four digits, or a sign and any number of them. -/
def year? (cs : List Char) : Option (Int × List Char) :=
  match Text.trimStart cs with
  | '-' :: rest => (number? rest.length rest).map fun p => (-(p.1 : Int), p.2)
  | '+' :: rest => (number? rest.length rest).map fun p => ((p.1 : Int), p.2)
  | rest => (number? 4 rest).map fun p => ((p.1 : Int), p.2)

/-- What follows a mark that may have blanks before it. -/
def mark? (mark : Char) (cs : List Char) : Option (List Char) :=
  match Text.trimStart cs with
  | c :: rest => if c = mark then some rest else none
  | [] => none

/-- The nanoseconds of a fraction, 0 if there is none. -/
def fraction? (cs : List Char) : Option (Nat × List Char) :=
  match cs with
  | '.' :: rest =>
    match leading 9 0 0 rest with
    | (_, 0, _) => none
    | (value, count, rest) =>
      some (value * Nat.pow 10 (9 - count), rest.dropWhile fun c => (digit? c).isSome)
  | cs => some (0, cs)

def pair? : List Char → Option (Nat × List Char)
  | a :: b :: rest => do
    let x ← digit? a
    let y ← digit? b
    some (x * 10 + y, rest)
  | _ => none

/-- The offset of a zone in minutes: `Z`, `UTC`, or a sign with hours and minutes. The sign may be
a hyphen or the minus sign of typography. -/
def zone? (cs : List Char) : Option (Int × List Char) :=
  match cs with
  | 'Z' :: rest | 'z' :: rest => some (0, rest)
  | a :: b :: c :: rest =>
    if a.toUpper = 'U' ∧ b.toUpper = 'T' ∧ c.toUpper = 'C' then some (0, rest)
    else
      let sign? : Option Int :=
        if a = '+' then some 1
        else if a = '-' ∨ a = Char.ofNat 0x2212 then some (-1)
        else none
      sign?.bind fun sign =>
        (pair? (b :: c :: rest)).bind fun hours =>
          (pair? (hours.2.dropWhile fun c => c == ':' || Text.isBlank c)).bind fun minutes =>
            if minutes.1 < 60 ∧ hours.1 < 24 then
              some (sign * (hours.1 * 60 + minutes.1 : Nat), minutes.2)
            else none
  | _ => none

/-- The second and nanosecond that a written second and fraction denote: a written 60 is a leap
second. -/
def leapSecond (second nano : Nat) : Nat × Nat :=
  if second = 60 then (59, nano + 1000000000) else (second, nano)

def parse? (s : String) : Option Instant := do
  let (year, cs) ← year? s.toList
  let (month, cs) ← field? (← mark? '-' cs)
  let (day, cs) ← field? (← mark? '-' cs)
  let date ← Date.of? year month day
  let cs ← match cs with
    | 't' :: cs | 'T' :: cs | ' ' :: cs => some cs
    | _ => none
  let (hour, cs) ← field? cs
  let (minute, cs) ← field? (← mark? ':' cs)
  let (second, cs) ← field? (← mark? ':' cs)
  let (nano, cs) ← fraction? cs
  let (offset, cs) ← zone? (Text.trimStart cs)
  if (Text.trimStart cs).isEmpty then
    let (second, nano) := leapSecond second nano
    let t ← of? date hour minute second nano
    t.shift? (-offset)
  else none

end Depot.Instant
