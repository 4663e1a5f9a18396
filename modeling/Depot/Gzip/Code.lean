import Depot.Gzip.Bits

/-!
Prefix codes given by the lengths of their words. The words of one length are consecutive numbers in
the order of their symbols, and follow the shorter words.
-/
namespace Depot.Gzip

/-- The longest code word. -/
def longestWord : Nat := 15

/-- The words of a code: the length, the word as a number, and its symbol. -/
abbrev Code := List (Nat × Nat × Nat)

namespace Code

/-- The symbols whose words have a given length. -/
def symbolsOf (lengths : List Nat) (length : Nat) : List Nat :=
  (List.range lengths.length).filter fun s => lengths.getD s 0 = length

/-- The words of some lengths in ascending order; `first` is the first word of the next length. -/
def wordsFrom (lengths : List Nat) : Nat → List Nat → Code
  | _, [] => []
  | first, length :: longer =>
    let symbols := symbolsOf lengths length
    symbols.mapIdx (fun i s => (length, first + i, s)) ++
      -- the first word left over, and a zero bit
      wordsFrom lengths ((first + symbols.length) * 2) longer

/-- The share of all words that the words of these lengths rule out, in units of the longest. -/
def share (lengths : List Nat) : Nat :=
  lengths.foldl (fun total l => total + if l = 0 then 0 else Nat.pow 2 (longestWord - l)) 0

/-- The code with words of these lengths, 0 for symbols without one. Every sequence of bits must
start with one of the words, unless there is no word or a single one of one bit. -/
def ofLengths? (lengths : List Nat) : Option Code :=
  let used := lengths.filter (· ≠ 0)
  if share lengths = Nat.pow 2 longestWord ∨ used = [] ∨ used = [1] then
    some (wordsFrom lengths 0 ((List.range longestWord).map (· + 1)))
  else none

/-- The symbol of the word that starts with `word`, of which `length` bits have been read. The first
argument bounds how many more there are. -/
def symbolFrom (c : Code) : Nat → Nat → Nat → Bits → Option (Nat × Bits)
  | 0, _, _, _ => none
  | more + 1, length, word, s => do
    let (b, s) ← s.next?
    let word := 2 * word + b.toNat
    match c.find? fun e => e.1 = length + 1 ∧ e.2.1 = word with
    | some e => some (e.2.2, s)
    | none => symbolFrom c more (length + 1) word s

def symbol? (c : Code) (s : Bits) : Option (Nat × Bits) :=
  symbolFrom c longestWord 0 0 s

end Code
end Depot.Gzip
