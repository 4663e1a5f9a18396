import Depot.Proofs.Tar.Numbers
import Depot.Tar.Reader

/-! Tar files that were written are read back. A header has its fields where the reader looks for them, its checksum
    holds, and its data reach to the next block; so one member is read after the other, until the blocks of zeros. -/

namespace Depot.Tar
variable {f : File} {a b c field rest whole : Bytes} {k n : Nat}

/-- The file has a name that fits its field, and a size of 64 bits. -/
structure File.Fits (f : File) : Prop where
  name_le : f.name.length ≤ 100
  no_nul : 0 ∉ f.name
  size_lt : f.data.length < 2 ^ 64

/-- The member that is read where a file was written. -/
def File.toMember (f : File) : Member := ⟨f.name, 0, f.data⟩

/-! ### Fields -/

theorem slice_eq (hwhole : whole = a ++ (b ++ c)) (ha : a.length = k) (hb : b.length = n) : slice whole k n = b := by
  subst hwhole ha
  unfold slice
  rw [List.drop_left, List.take_append_of_le_length (Nat.le_of_eq hb.symm), List.take_of_length_le (Nat.le_of_eq hb)]

@[simp] theorem length_fill (h : field.length ≤ n) : (fill n field).length = n := by
  unfold fill
  rw [List.take_of_length_le h, List.length_append, List.length_replicate]
  omega

theorem untilNul_fill (h : 0 ∉ field) (hlength : field.length ≤ n) : untilNul (fill n field) = field := by
  unfold fill
  rw [List.take_of_length_le hlength]
  cases hpad : n - field.length with
  | zero => rw [List.replicate_zero, List.append_nil, untilNul_of_notMem h]
  | succ k => rw [List.replicate_succ, untilNul_append h]

/-- The bytes of a header before the checksum field. -/
def front (f : File) : Bytes := (headerParts f).1

/-- The bytes of a header behind the checksum field. -/
def back : Bytes := fill 101 [] ++ [0x75, 0x73, 0x74, 0x61, 0x72, 0x20, 0x20, 0] ++ fill 247 []

/-- The checksum of a header. -/
def sum (f : File) : Nat := (front f ++ back).foldl (fun n b => n + b.toNat) (8 * 0x20)

theorem header_eq (f : File) : header f = front f ++ octalField 7 (sum f) ++ back := rfl

theorem length_front (hname : f.name.length ≤ 100) : (front f).length = 148 := by
  simp [front, headerParts, length_fill hname]

theorem length_back : back.length = 356 := by simp [back]

theorem length_header (hname : f.name.length ≤ 100) : (header f).length = 512 := by
  simp [header_eq, length_front hname, length_back]

theorem dialect_header (hf : f.Fits) : dialect (header f) = .gnu := by
  unfold dialect
  rw [if_pos]
  refine slice_eq (a := front f ++ octalField 7 (sum f) ++ fill 101 []) (c := fill 247 []) ?_ ?_ rfl
  · simp only [header_eq, back, List.append_assoc]
  · simp [length_front hf.name_le]

theorem number?_header (hf : f.Fits) : number? (slice (header f) 124 12) = some f.data.length := by
  rw [slice_eq (a := fill 100 f.name ++ octalField 7 0o644 ++ fill 8 [] ++ fill 8 [])
    (b := sizeField f.data.length) (c := octalField 11 0 ++ octalField 7 (sum f) ++ back) ?_ ?_ (length_sizeField _)]
  · exact number?_sizeField hf.size_lt
  · simp only [header_eq, front, headerParts, List.append_assoc]
  · simp [length_fill hf.name_le]

theorem headerName_header (hf : f.Fits) : headerName (header f) = f.name := by
  have hname : slice (header f) 0 100 = fill 100 f.name := by
    refine slice_eq (a := []) (c := octalField 7 0o644 ++ fill 8 [] ++ fill 8 [] ++ sizeField f.data.length ++
      octalField 11 0 ++ octalField 7 (sum f) ++ back) ?_ rfl (length_fill hf.name_le)
    simp only [header_eq, front, headerParts, List.append_assoc, List.nil_append]
  unfold headerName
  rw [hname, untilNul_fill hf.no_nul hf.name_le, dialect_header hf]
  exact if_neg fun h => nomatch h.1

theorem kindByte_header (hf : f.Fits) : kindByte (header f) = 0 := by
  have hlength : (front f ++ octalField 7 (sum f)).length = 156 := by simp [length_front hf.name_le]
  unfold kindByte
  rw [header_eq, List.getD_eq_getElem?_getD, List.getElem?_append_right (Nat.le_of_eq hlength), hlength]
  rfl

/-! ### Checksums -/

theorem foldl_sum (b : Bytes) (k : Nat) :
    b.foldl (fun n b => n + b.toNat) k = k + b.foldl (fun n b => n + b.toNat) 0 := by
  induction b generalizing k with
  | nil => rfl
  | cons x b ih =>
    rw [List.foldl_cons, List.foldl_cons, ih, ih (0 + x.toNat)]
    omega

theorem foldl_sum_le (b : Bytes) : b.foldl (fun n b => n + b.toNat) 0 ≤ 255 * b.length := by
  induction b with
  | nil => exact Nat.le_refl _
  | cons x b ih =>
    have hx := x.toNat_lt
    rw [List.foldl_cons, foldl_sum, List.length_cons]
    omega

theorem sum_lt (hf : f.Fits) : sum f < 8 ^ 7 := by
  have hle := foldl_sum_le (front f ++ back)
  rw [List.length_append, length_front hf.name_le, length_back] at hle
  unfold sum
  rw [foldl_sum]
  omega

theorem checksum_header (hf : f.Fits) : checksum (header f) = sum f := by
  have hlength : (front f ++ octalField 7 (sum f)).length = 156 := by simp [length_front hf.name_le]
  have htake : (header f).take 148 = front f := by
    rw [header_eq, List.append_assoc]
    exact List.take_left' (length_front hf.name_le)
  have hdrop : (header f).drop 156 = back := by
    rw [header_eq]
    exact List.drop_left' hlength
  unfold checksum sum
  rw [htake, hdrop, foldl_sum (front f ++ back), List.foldl_append, foldl_sum back (List.foldl _ _ _)]
  omega

theorem checksumHolds_header (hf : f.Fits) : checksumHolds (header f) = true := by
  have hlt := sum_lt hf
  have hfield : slice (header f) 148 8 = octalField 7 (sum f) := by
    refine slice_eq (a := front f) (c := back) ?_ (length_front hf.name_le) (length_octalField 7 _)
    rw [header_eq, List.append_assoc]
  unfold checksumHolds
  rw [hfield, octal?_octalField (by decide) hlt (by omega), checksum_header hf, Option.any_some,
    Nat.mod_eq_of_lt (Nat.lt_trans hlt (by decide)), beq_self_eq_true]

/-! ### Members -/

theorem not_all_zero_header (f : File) : (header f).all (· = 0) = false := by
  have hmagic : (0x75 : UInt8) ∈ header f := by simp [header_eq, back]
  rw [List.all_eq_false]
  exact ⟨0x75, hmagic, by decide⟩

theorem length_paddedData (data : Bytes) : (paddedData data).length = roundUp data.length := by
  unfold paddedData roundUp
  rw [List.length_append, List.length_replicate]
  omega

theorem fullName_nothing (whole : Bytes) : fullName .nothing whole = headerName whole := rfl

/-- A member that was written is read, and then what follows it. -/
theorem membersFrom_member (hf : f.Fits) (rest : Bytes) :
    membersFrom .nothing (member f ++ rest) = (membersFrom .nothing rest).map (f.toMember :: ·) := by
  have hheader := length_header hf.name_le
  have hsplit : member f ++ rest = header f ++ (paddedData f.data ++ rest) := by
    rw [member, List.append_assoc]
  have hpadded := length_paddedData f.data
  have htake : (member f ++ rest).take blockSize = header f := by
    rw [hsplit]
    exact List.take_left' hheader
  have hdrop : (member f ++ rest).drop blockSize = paddedData f.data ++ rest := by
    rw [hsplit]
    exact List.drop_left' hheader
  have hlength : ¬(member f ++ rest).length < blockSize := by
    rw [hsplit, List.length_append, hheader, blockSize]
    omega
  have hdata : (paddedData f.data ++ rest).take f.data.length = f.data := by
    rw [paddedData, List.append_assoc, List.take_left]
  have hnext : (paddedData f.data ++ rest).drop (roundUp f.data.length) = rest := List.drop_left' hpadded
  have hsize : memberSize? .nothing (header f) = some f.data.length := by
    unfold memberSize?
    rw [number?_header hf, Option.map_some]
    simp [Foretold.nothing]
  rw [membersFrom, if_neg (by simp [hsplit, header_eq, back]), dif_neg hlength]
  dsimp only
  rw [htake, hdrop, if_neg (by simp [not_all_zero_header]), checksumHolds_header hf, hsize]
  dsimp only
  rw [if_neg (by simp), if_neg (by simp [hpadded]), hdata, hnext, kindByte_header hf,
    fullName_nothing, headerName_header hf]
  -- It is a plain file: it describes no other member, and has no map of holes.
  rw [if_neg fun h => absurd h.2 (by decide), if_neg fun h => absurd h.2 (by decide),
    if_neg fun h => absurd h.2 (by decide), if_neg (by decide)]
  rfl

theorem membersFrom_ending : membersFrom .nothing ending = some [] := by
  have hlength : ending.length = 1024 := List.length_replicate
  have htake : ending.take blockSize = List.replicate 512 0 := List.take_replicate
  rw [membersFrom, if_neg (List.ne_nil_of_length_pos (by omega)), dif_neg (by rw [hlength, blockSize]; omega)]
  dsimp only
  have hzeros : (List.replicate 512 (0 : UInt8)).all (· = 0) = true :=
    List.all_eq_true.mpr fun x hx => decide_eq_true (List.eq_of_mem_replicate hx)
  rw [htake, if_pos hzeros]
  rfl

/-- Files that were written are read back, in order. -/
theorem decode_encode {files : List File} (h : ∀ f ∈ files, f.Fits) :
    decode (encode files) = some (files.map File.toMember) := by
  unfold decode encode
  induction files with
  | nil => exact membersFrom_ending
  | cons f files ih =>
    rw [List.flatMap_cons, List.append_assoc, membersFrom_member (h f (by simp)), ih fun f hf => h f (by simp [hf])]
    rfl

end Depot.Tar
