import Depot.Gzip.Code

/-!
Reading deflated data: blocks of bytes as they are, or of words of two codes, one for bytes and for
the lengths of repetitions, the other for how far back they reach. What has been read is kept in
reverse, as the last byte is the nearest.
-/
namespace Depot.Gzip

/-- A number in bytes, the lowest first. -/
def littleNumber (b : Bytes) : Nat :=
  b.foldr (fun x n => x.toNat + 256 * n) 0

/-! ### Repetitions -/

/-- Where each class of lengths begins, and how many further bits it has. -/
def lengthClasses : List (Nat × Nat) := [
  (3, 0), (4, 0), (5, 0), (6, 0), (7, 0), (8, 0), (9, 0), (10, 0), (11, 1), (13, 1), (15, 1),
  (17, 1), (19, 2), (23, 2), (27, 2), (31, 2), (35, 3), (43, 3), (51, 3), (59, 3), (67, 4), (83, 4),
  (99, 4), (115, 4), (131, 5), (163, 5), (195, 5), (227, 5), (258, 0)]

/-- Where each class of distances begins, and how many further bits it has. -/
def distanceClasses : List (Nat × Nat) := [
  (1, 0), (2, 0), (3, 0), (4, 0), (5, 1), (7, 1), (9, 2), (13, 2), (17, 3), (25, 3), (33, 4),
  (49, 4), (65, 5), (97, 5), (129, 6), (193, 6), (257, 7), (385, 7), (513, 8), (769, 8), (1025, 9),
  (1537, 9), (2049, 10), (3073, 10), (4097, 11), (6145, 11), (8193, 12), (12289, 12), (16385, 13),
  (24577, 13)]

/-- The number in a class, completed by its further bits. -/
def inClass? (classes : List (Nat × Nat)) (i : Nat) (s : Bits) : Option (Nat × Bits) := do
  let (start, width) ← classes[i]?
  let (n, s) ← s.number? width
  some (start + n, s)

/-- Repeats what lies `distance` back, byte by byte, so that it may overlap its own start. Before the
first byte there are only zeros. -/
def copyBack (distance : Nat) : Nat → Bytes → Bytes
  | 0, out => out
  | n + 1, out => copyBack distance n (out.getD (distance - 1) 0 :: out)

/-! ### Blocks -/

/-- Reads words up to the one that ends the block. The first argument bounds their number. -/
def words? (bytes distances : Code) : Nat → Bits → Bytes → Option (Bits × Bytes)
  | 0, _, _ => none
  | n + 1, s, out => do
    let (symbol, s) ← bytes.symbol? s
    if symbol < 256 then words? bytes distances n s (symbol.toUInt8 :: out)
    else if symbol = 256 then some (s, out)
    else
      let (length, s) ← inClass? lengthClasses (symbol - 257) s
      let (far, s) ← distances.symbol? s
      let (distance, s) ← inClass? distanceClasses far s
      words? bytes distances n s (copyBack distance length out)

/-- The lengths of the words of the fixed code for bytes. -/
def fixedByteLengths : List Nat :=
  List.replicate 144 8 ++ List.replicate 112 9 ++ List.replicate 24 7 ++ List.replicate 8 8

/-- The lengths of the words of the fixed code for distances. -/
def fixedDistanceLengths : List Nat := List.replicate 32 5

/-- The order in which the lengths of the code for lengths are given. -/
def lengthOrder : List Nat :=
  [16, 17, 18, 0, 8, 7, 9, 6, 10, 5, 11, 4, 12, 3, 13, 2, 14, 1, 15]

def triples? : Nat → Bits → Option (List Nat × Bits)
  | 0, s => some ([], s)
  | n + 1, s => do
    let (x, s) ← s.number? 3
    let (xs, s) ← triples? n s
    some (x :: xs, s)

/-- The lengths of the words of the codes of a block, by a code of their own that has words for
repetitions. The lengths are gathered in reverse up to `total`; the first argument bounds the
steps. -/
def lengths? (code : Code) (total : Nat) : Nat → Bits → List Nat → Option (List Nat × Bits)
  | 0, _, _ => none
  | n + 1, s, ls =>
    if ls.length = total then some (ls.reverse, s)
    else if ls.length > total then none
    else do
      let (symbol, s) ← code.symbol? s
      if symbol < 16 then lengths? code total n s (symbol :: ls)
      else if symbol = 16 then
        let last ← ls.head?
        let (more, s) ← s.number? 2
        lengths? code total n s (List.replicate (3 + more) last ++ ls)
      else if symbol = 17 then
        let (more, s) ← s.number? 3
        lengths? code total n s (List.replicate (3 + more) 0 ++ ls)
      else
        let (more, s) ← s.number? 7
        lengths? code total n s (List.replicate (11 + more) 0 ++ ls)

/-- The most words for bytes and lengths that a block may bring, and the most for distances: one for
each of their symbols. -/
def mostWords : Nat × Nat := (286, 30)

/-- The two codes of a block that brings its own. -/
def codes? (s : Bits) : Option (Code × Code × Bits) := do
  let (byteCount, s) ← s.number? 5
  let (distanceCount, s) ← s.number? 5
  let (count, s) ← s.number? 4
  let byteCount := byteCount + 257
  let distanceCount := distanceCount + 1
  if byteCount > mostWords.1 ∨ distanceCount > mostWords.2 then none
  let (given, s) ← triples? (count + 4) s
  let lengths := (List.range 19).map fun i =>
    (lengthOrder.zip given).lookup i |>.getD 0
  let code ← Code.ofLengths? lengths
  -- one list for both codes: a repetition may run on from the first into the second
  let total := byteCount + distanceCount
  let (all, s) ← lengths? code total (total + 1) s []
  let bytes ← Code.ofLengths? (all.take byteCount)
  let distances ← Code.ofLengths? (all.drop byteCount)
  some (bytes, distances, s)

/-- A block of bytes as they are: their number, the same inverted, and the bytes. -/
def plainBlock? (b : Bytes) (out : Bytes) : Option (Bits × Bytes) :=
  let n := littleNumber (b.take 2)
  let inverted := littleNumber ((b.drop 2).take 2)
  let rest := b.drop 4
  if b.length < 4 ∨ n + inverted ≠ 65535 ∨ rest.length < n then none
  else some (.ofBytes (rest.drop n), (rest.take n).reverse ++ out)

def block? (kind : Nat) (s : Bits) (out : Bytes) : Option (Bits × Bytes) :=
  if kind = 0 then plainBlock? s.align out
  -- every word takes a bit at least, so the number of bits bounds the number of words
  else if kind = 1 then do
    let bytes ← Code.ofLengths? fixedByteLengths
    let distances ← Code.ofLengths? fixedDistanceLengths
    words? bytes distances (s.size + 1) s out
  else if kind = 2 then do
    let (bytes, distances, s) ← codes? s
    words? bytes distances (s.size + 1) s out
  else none

/-- Reads blocks up to the last. The first argument bounds their number. -/
def blocks? : Nat → Bits → Bytes → Option (Bits × Bytes)
  | 0, _, _ => none
  | n + 1, s, out => do
    let (last, s) ← s.next?
    let (kind, s) ← s.number? 2
    let (s, out) ← block? kind s out
    if last then some (s, out) else blocks? n s out

/-- The content of deflated data, and the bytes that follow it. -/
def inflate? (b : Bytes) : Option (Bytes × Bytes) :=
  (blocks? (8 * b.length + 1) (.ofBytes b) []).map fun (s, out) => (out.reverse, s.align)

end Depot.Gzip
