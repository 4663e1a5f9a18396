import Depot.Proofs.Bytes
import Depot.Tar.Writer
import Mathlib.Algebra.GroupWithZero.Nat

/-! Numbers in tar headers. A number that is written in octal is read back as long as it fits the field, and a size
    is read back whichever way it is written. -/

namespace Depot.Tar

/-! ### Fields that end in a NUL -/

theorem untilNul_append_of_notMem {b : Bytes} (h : 0 ∉ b) (rest : Bytes) : untilNul (b ++ rest) = b ++ untilNul rest := by
  refine List.takeWhile_append_of_pos fun x hx => ?_
  have hne : x ≠ 0 := by
    rintro rfl
    exact h hx
  simpa using hne

theorem untilNul_of_notMem {b : Bytes} (h : 0 ∉ b) : untilNul b = b := by
  have hb := untilNul_append_of_notMem h []
  rwa [List.append_nil, show untilNul [] = [] from rfl, List.append_nil] at hb

theorem untilNul_append {b : Bytes} (h : 0 ∉ b) (rest : Bytes) : untilNul (b ++ 0 :: rest) = b := by
  rw [untilNul_append_of_notMem h, show untilNul (0 :: rest) = [] from rfl, List.append_nil]

/-! ### Octal digits -/

/-- The last `width` octal digits of a number. -/
def octalDigits (width n : Nat) : List Nat := (List.range width).map fun i => n / 8 ^ (width - 1 - i) % 8

theorem octalDigits_succ (width n : Nat) : octalDigits (width + 1) n = octalDigits width (n / 8) ++ [n % 8] := by
  unfold octalDigits
  rw [List.range_succ, List.map_append]
  congr 1
  · refine List.map_congr_left fun i hi => ?_
    have hi := List.mem_range.mp hi
    rw [Nat.div_div_eq_div_mul, ← Nat.pow_succ', show (width - 1 - i).succ = width + 1 - 1 - i by omega]
  · simp

theorem length_octalDigits (width n : Nat) : (octalDigits width n).length = width := by simp [octalDigits]

theorem lt_of_mem_octalDigits {width n d : Nat} (h : d ∈ octalDigits width n) : d < 8 := by
  obtain ⟨i, -, rfl⟩ := List.mem_map.mp h
  exact Nat.mod_lt _ (by decide)

theorem foldl_octalDigits (width n : Nat) :
    (octalDigits width n).foldl (fun n d => n * 8 + d) 0 = n % 8 ^ width := by
  induction width generalizing n with
  | zero => simp [octalDigits, Nat.mod_one]
  | succ width ih =>
    rw [octalDigits_succ, List.foldl_append, ih, Nat.pow_succ', Nat.mod_mul]
    show n / 8 % 8 ^ width * 8 + n % 8 = _
    omega

theorem digitChar_octal : ∀ d < 8, octalDigit? (Nat.digitChar d) = some d ∧ (Nat.digitChar d).toNat = 0x30 + d ∧
    Text.isBlank (Nat.digitChar d) = false ∧ Nat.digitChar d ≠ '+' := by
  decide

section Digits
variable {ds : List Nat}

theorem mapM_octalDigit? (h : ∀ d ∈ ds, d < 8) : (ds.map Nat.digitChar).mapM octalDigit? = some ds := by
  induction ds with
  | nil => rfl
  | cons d ds ih =>
    rw [List.map_cons, List.mapM_cons, (digitChar_octal d (h d (by simp))).1, ih fun d hd => h d (by simp [hd])]
    rfl

theorem octalDigits?_digits (h : ∀ d ∈ ds, d < 8) (hne : ds ≠ [])
    (hlt : ds.foldl (fun n d => n * 8 + d) 0 < 2 ^ 64) :
    octalDigits? (ds.map Nat.digitChar) = some (ds.foldl (fun n d => n * 8 + d) 0) := by
  unfold octalDigits?
  rw [if_neg (by simpa using hne), mapM_octalDigit? h, Option.bind_some]
  exact if_pos hlt

/-- A field of digits and a NUL is read as the number that the digits denote. -/
theorem octal?_digits (h : ∀ d ∈ ds, d < 8) (hne : ds ≠ []) (hlt : ds.foldl (fun n d => n * 8 + d) 0 < 2 ^ 64) :
    octal? (ds.map (fun d => (0x30 + d).toUInt8) ++ [0]) = some (ds.foldl (fun n d => n * 8 + d) 0) := by
  have hplain : Bytes.Plain (String.ofList (ds.map Nat.digitChar)).toList := by
    rw [String.toList_ofList]
    intro c hc
    obtain ⟨d, hd, rfl⟩ := List.mem_map.mp hc
    have hd := h d hd
    rw [(digitChar_octal d hd).2.1]
    omega
  have hbytes : ds.map (fun d => (0x30 + d).toUInt8) = Bytes.ofText (String.ofList (ds.map Nat.digitChar)) := by
    rw [Bytes.ofText_of_plain hplain, String.toList_ofList, List.map_map]
    refine List.map_congr_left fun d hd => ?_
    show _ = (Nat.digitChar d).toNat.toUInt8
    rw [(digitChar_octal d (h d hd)).2.1]
  unfold octal?
  rw [hbytes, untilNul_append (Bytes.zero_notMem_of_plain hplain), Bytes.text?_ofText, Option.bind_some,
    String.toList_ofList, Text.trim_of_not_blank]
  · split
    · next rest hplus =>
      obtain ⟨d, ds, rfl⟩ := List.exists_cons_of_ne_nil hne
      exact absurd (List.cons.inj hplus).1 (digitChar_octal d (h d (by simp))).2.2.2
    · exact octalDigits?_digits h hne hlt
  · intro c hc
    obtain ⟨d, hd, rfl⟩ := List.mem_map.mp hc
    exact (digitChar_octal d (h d hd)).2.2.1

end Digits

/-! ### Numbers and sizes -/

theorem octalField_eq (width n : Nat) :
    octalField width n = (octalDigits width n).map (fun d => (0x30 + d).toUInt8) ++ [0] := by
  unfold octalField octalDigits
  rw [List.map_map]
  rfl

@[simp] theorem length_octalField (width n : Nat) : (octalField width n).length = width + 1 := by
  simp [octalField]

theorem octal?_octalField {width n : Nat} (hwidth : 0 < width) (hfits : n < 8 ^ width) (hlt : n < 2 ^ 64) :
    octal? (octalField width n) = some n := by
  have hvalue := foldl_octalDigits width n
  rw [Nat.mod_eq_of_lt hfits] at hvalue
  have hne : octalDigits width n ≠ [] := List.ne_nil_of_length_pos (by rwa [length_octalDigits])
  rw [octalField_eq, octal?_digits (fun d hd => lt_of_mem_octalDigits hd) hne (by rwa [hvalue]), hvalue]

@[simp] theorem length_bigBytes (width n : Nat) : (bigBytes width n).length = width := by
  induction width generalizing n with
  | zero => rfl
  | succ width ih => simp [bigBytes, ih]

theorem foldl_bigBytes (width n : Nat) : (bigBytes width n).foldl (fun n b => n * 256 + b.toNat) 0 = n % 256 ^ width := by
  induction width generalizing n with
  | zero => simp [bigBytes, Nat.mod_one]
  | succ width ih =>
    rw [bigBytes, List.foldl_append, ih, Nat.pow_succ', Nat.mod_mul]
    show n / 256 % 256 ^ width * 256 + (n % 256).toUInt8.toNat = _
    have hbyte : (n % 256).toUInt8.toNat = n % 256 := Nat.mod_eq_of_lt (Nat.mod_lt _ (by decide))
    rw [hbyte]
    omega

@[simp] theorem length_sizeField (n : Nat) : (sizeField n).length = 12 := by
  unfold sizeField
  split <;> simp

theorem number?_sizeField {n : Nat} (hn : n < 2 ^ 64) : number? (sizeField n) = some n := by
  unfold sizeField
  split
  · next hsmall =>
    have hoctal := octal?_octalField (by decide : 0 < 11) hsmall hn
    have hdigits := octalField_eq 11 n
    obtain ⟨d, ds, hds⟩ := List.exists_cons_of_ne_nil
      (List.ne_nil_of_length_pos (by rw [length_octalDigits]; decide) : octalDigits 11 n ≠ [])
    have hhigh : ∀ d < 8, (0x30 + d).toUInt8 &&& 0x80 = 0 := by decide
    have hmem : d ∈ octalDigits 11 n := by
      rw [hds]
      simp
    have hd := hhigh d (lt_of_mem_octalDigits hmem)
    rw [hds, List.map_cons, List.cons_append] at hdigits
    rw [hdigits] at hoctal ⊢
    exact (if_neg fun hhigh => hhigh hd).trans hoctal
  · have hdrop : (0x80 :: 0 :: 0 :: 0 :: bigBytes 8 n).drop ((0x80 :: 0 :: 0 :: 0 :: bigBytes 8 n).length - 8) = bigBytes 8 n := by
      simp
    have hvalue := foldl_bigBytes 8 n
    rw [Nat.mod_eq_of_lt (by omega)] at hvalue
    show some (base256 _) = some n
    unfold base256
    rw [hdrop, hvalue]

end Depot.Tar
