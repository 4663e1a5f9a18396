import Depot.Gzip

/-!
Writing gzip streams in blocks of bytes as they are. What is written is read again as what it was:
reading takes a block at a time, and the fuel of the reader is enough as every block has bytes of its
own.
-/
namespace Depot.Gzip

/-- A number in `width` bytes, the lowest first. -/
def littleBytes : Nat → Nat → Bytes
  | 0, _ => []
  | width + 1, n => (n % 256).toUInt8 :: littleBytes width (n / 256)

/-- The most that one block holds. -/
def largestBlock : Nat := 65535

def writeBlock (last : Bool) (data : Bytes) : Bytes :=
  (if last then 1 else 0) :: littleBytes 2 data.length ++ littleBytes 2 (largestBlock - data.length) ++
    data

/-- The blocks of some data. -/
def blocksOf (data : Bytes) : Bytes :=
  if _ : data.length ≤ largestBlock then writeBlock true data
  else writeBlock false (data.take largestBlock) ++ blocksOf (data.drop largestBlock)
termination_by data.length
decreasing_by
  rename_i h
  simp only [largestBlock] at h
  simp only [List.length_drop, largestBlock]
  omega

/-- Without any data there is one block, of the fixed codes, with nothing in it but its end. -/
def deflate (data : Bytes) : Bytes :=
  if data = [] then [3, 0] else blocksOf data

/-- The header of every stream that is written here: no name, no time, no particular system. -/
def plainHeader : Bytes := [0x1f, 0x8b, 8, 0, 0, 0, 0, 0, 0, 0xff]

def encode (data : Bytes) : Bytes :=
  plainHeader ++ deflate data ++ littleBytes 4 (checksum data).toNat ++ littleBytes 4 data.length

variable {data : Bytes}

/-! ### Numbers -/

@[simp] theorem length_littleBytes (width n : Nat) : (littleBytes width n).length = width := by
  induction width generalizing n with
  | zero => rfl
  | succ width ih => rw [littleBytes, List.length_cons, ih]

/-- The bytes of a number are those of its remainder. -/
theorem littleNumber_littleBytes (width n : Nat) : littleNumber (littleBytes width n) = n % Nat.pow 256 width := by
  induction width generalizing n with
  | zero => exact (Nat.mod_one n).symm
  | succ width ih =>
    have hbyte : (n % 256).toUInt8.toNat = n % 256 := Nat.mod_eq_of_lt (Nat.mod_lt n (by decide))
    show (n % 256).toUInt8.toNat + 256 * littleNumber (littleBytes width (n / 256)) = _
    rw [hbyte, ih, show Nat.pow 256 (width + 1) = 256 * Nat.pow 256 width from Nat.mul_comm .., Nat.mod_mul]

theorem littleNumber_littleBytes_of_lt {width n : Nat} (h : n < Nat.pow 256 width) : littleNumber (littleBytes width n) = n := by
  rw [littleNumber_littleBytes, Nat.mod_eq_of_lt h]

/-! ### Blocks -/

theorem plainBlock?_of_short (h : data.length ≤ largestBlock) (tail out : Bytes) :
    plainBlock? (littleBytes 2 data.length ++ littleBytes 2 (largestBlock - data.length) ++ data ++ tail) out =
      some (.ofBytes tail, data.reverse ++ out) := by
  have hlength : littleNumber (littleBytes 2 data.length) = data.length :=
    littleNumber_littleBytes_of_lt (Nat.lt_succ_of_le h)
  have hinverted : littleNumber (littleBytes 2 (largestBlock - data.length)) = largestBlock - data.length :=
    littleNumber_littleBytes_of_lt (Nat.lt_succ_of_le (Nat.sub_le _ _))
  unfold plainBlock?
  rw [List.append_assoc, List.append_assoc, show (4 : Nat) = 2 + 2 from rfl, ← List.drop_drop,
    List.take_left' (length_littleBytes ..), List.drop_left' (length_littleBytes ..), List.take_left' (length_littleBytes ..),
    List.drop_left' (length_littleBytes ..), hlength, hinverted]
  rw [if_neg]
  · rw [List.drop_left, List.take_left]
  · simp only [List.length_append, length_littleBytes]
    simp only [largestBlock] at h ⊢
    omega

theorem length_writeBlock_pos (last : Bool) (data : Bytes) : 0 < (writeBlock last data).length := Nat.succ_pos _

/-- A block is read as its data. -/
theorem blocks?_writeBlock (h : data.length ≤ largestBlock) (last : Bool) (n : Nat) (tail out : Bytes) :
    blocks? (n + 1) (.ofBytes (writeBlock last data ++ tail)) out =
      if last then some (.ofBytes tail, data.reverse ++ out) else blocks? n (.ofBytes tail) (data.reverse ++ out) := by
  -- The first three bits are the mark of the last block and the kind; the rest of their byte is passed over.
  have hbits (rest : Bytes) : blocks? (n + 1) (.ofBytes ((if last then 1 else 0) :: rest)) out =
      (plainBlock? rest out).bind fun r => if last then some r else blocks? n r.1 r.2 := by
    cases last <;> rfl
  unfold writeBlock
  rw [List.cons_append, List.cons_append, List.cons_append, hbits, plainBlock?_of_short h]
  rfl

/-- Blocks are read as their data, if the reader may take as many as there are bytes. -/
theorem blocks?_blocksOf {n : Nat} (h : (blocksOf data).length ≤ n) (tail out : Bytes) :
    blocks? n (.ofBytes (blocksOf data ++ tail)) out = some (.ofBytes tail, data.reverse ++ out) := by
  induction data using blocksOf.induct generalizing n out with
  | case1 data hshort =>
    have hpos := length_writeBlock_pos true data
    rw [blocksOf, dif_pos hshort] at h ⊢
    obtain ⟨n, rfl⟩ := Nat.exists_eq_add_of_lt (Nat.lt_of_lt_of_le hpos h)
    rw [Nat.zero_add, blocks?_writeBlock hshort, if_pos rfl]
  | case2 data hlong ih =>
    have hfirst : (data.take largestBlock).length ≤ largestBlock := List.length_take_le ..
    have hpos := length_writeBlock_pos false (data.take largestBlock)
    rw [blocksOf, dif_neg hlong] at h ⊢
    rw [List.length_append] at h
    obtain ⟨n, rfl⟩ := Nat.exists_eq_add_of_lt (by omega : 0 < n)
    rw [Nat.zero_add, List.append_assoc, blocks?_writeBlock hfirst, if_neg (by simp), ih (by omega),
      ← List.append_assoc, ← List.reverse_append, List.take_append_drop]

theorem inflate?_blocksOf (data tail : Bytes) : inflate? (blocksOf data ++ tail) = some (data, tail) := by
  unfold inflate?
  rw [blocks?_blocksOf (by rw [List.length_append]; omega)]
  simp [Bits.align, Bits.ofBytes]

/-! ### Streams -/

theorem afterHeader?_plainHeader (b : Bytes) : afterHeader? (plainHeader ++ b) = some b := rfl

/-- A stream is read as what it was made of. -/
theorem decode?_encode (data : Bytes) : decode? (encode data) = some data := by
  by_cases hempty : data = []
  · subst hempty
    decide +kernel
  have hsum : littleNumber (littleBytes 4 (checksum data).toNat) = (checksum data).toNat :=
    littleNumber_littleBytes_of_lt (checksum data).toNat_lt
  have hsize : littleNumber (littleBytes 4 data.length) = data.length % UInt32.size := littleNumber_littleBytes 4 _
  unfold decode? encode deflate
  rw [if_neg hempty, List.append_assoc, List.append_assoc, afterHeader?_plainHeader, Option.bind_eq_bind, Option.bind_some,
    inflate?_blocksOf, Option.bind_eq_bind, Option.bind_some]
  dsimp only
  rw [List.take_left' (length_littleBytes ..), List.drop_left' (length_littleBytes ..),
    List.take_of_length_le (Nat.le_of_eq (length_littleBytes ..)), hsum, hsize]
  rw [if_neg (by simp), if_neg (by simp), if_neg (by simp)]

/-- Makes streams of blocks of bytes as they are. -/
def Encoder.stored : Encoder := ⟨Gzip.encode, Gzip.decode?_encode⟩

end Depot.Gzip
