import Depot.Bytes.Cut

/-! The bytes of texts. A text has as many bytes as its characters have together, and the bytes of a text of plain
    characters are the numbers of its characters. Among other characters too an ASCII byte is a character of its own, so
    there is a boundary on either side of it. -/

namespace Depot.Bytes
variable {s : String} {cs : List Char}

theorem ofText_eq_flatMap (s : String) : ofText s = s.toList.flatMap String.utf8EncodeChar := by
  show s.toByteArray.data.toList = _
  rw [← String.utf8Encode_toList, List.utf8Encode, List.toList_data_toByteArray]

theorem length_ofText (s : String) : (ofText s).length = s.utf8ByteSize := by
  show s.toByteArray.data.toList.length = _
  rw [Array.length_toList]
  exact String.size_toByteArray

theorem ofText_append (s t : String) : ofText (s ++ t) = ofText s ++ ofText t := by
  rw [ofText_eq_flatMap, String.toList_append, List.flatMap_append, ← ofText_eq_flatMap, ← ofText_eq_flatMap]

theorem eq_ofText_of_text? {b : Bytes} (h : text? b = some s) : b = ofText s := by
  unfold text? String.fromUTF8? at h
  split at h
  · obtain rfl := Option.some.inj h
    show b = b.toArray.toList
    simp
  · cases h

/-- A text has no more bytes than one in which it is contained. -/
theorem utf8ByteSize_le_of_sublist {t : String} (h : s.toList.Sublist t.toList) : s.utf8ByteSize ≤ t.utf8ByteSize := by
  rw [← length_ofText, ← length_ofText, ofText_eq_flatMap, ofText_eq_flatMap]
  generalize s.toList = a, t.toList = b at h
  induction h with
  | slnil => exact Nat.le_refl _
  | cons c _ ih =>
    rw [List.flatMap_cons, List.length_append]
    omega
  | cons_cons c _ ih =>
    rw [List.flatMap_cons, List.flatMap_cons, List.length_append, List.length_append]
    omega

/-- A character has at most four bytes. -/
theorem utf8ByteSize_le (s : String) : s.utf8ByteSize ≤ 4 * s.toList.length := by
  rw [← length_ofText, ofText_eq_flatMap]
  induction s.toList with
  | nil => simp
  | cons c cs ih =>
    have hc := c.utf8Size_le_four
    rw [List.flatMap_cons, List.length_append, String.length_utf8EncodeChar, List.length_cons]
    omega

/-! ### Plain characters -/

/-- The characters have one byte each, and none is NUL. -/
def Plain (cs : List Char) : Prop := ∀ c ∈ cs, 0 < c.toNat ∧ c.toNat < 128

instance : Decidable (Plain cs) := List.decidableBAll _ cs

theorem plain_append {ds : List Char} : Plain (cs ++ ds) ↔ Plain cs ∧ Plain ds := List.forall_mem_append

theorem utf8EncodeChar_of_lt {c : Char} (h : c.toNat < 128) : String.utf8EncodeChar c = [c.toNat.toUInt8] :=
  if_pos (Nat.le_of_lt_succ h)

theorem ofText_of_plain (h : Plain s.toList) : ofText s = s.toList.map fun c => c.toNat.toUInt8 := by
  rw [ofText_eq_flatMap]
  generalize s.toList = cs at h
  induction cs with
  | nil => rfl
  | cons c cs ih =>
    rw [List.flatMap_cons, utf8EncodeChar_of_lt (h c (by simp)).2, ih fun c hc => h c (by simp [hc])]
    rfl

theorem utf8ByteSize_of_plain (h : Plain s.toList) : s.utf8ByteSize = s.toList.length := by
  rw [← length_ofText, ofText_of_plain h, List.length_map]

theorem zero_notMem_of_plain (h : Plain s.toList) : 0 ∉ ofText s := by
  rw [ofText_of_plain h, List.mem_map]
  rintro ⟨c, hc, hzero⟩
  obtain ⟨hpos, hlt⟩ := h c hc
  have : c.toNat.toUInt8.toNat = c.toNat := Nat.mod_eq_of_lt (by omega)
  rw [hzero] at this
  exact absurd this.symm (by simp; omega)

/-! ### Places among characters -/

section Places
variable {b run rest : Bytes} {x : UInt8} {c : Char} {ds : List Char}

@[simp] theorem ofChars_nil : ofChars [] = [] := rfl

@[simp] theorem ofChars_cons (c : Char) (cs : List Char) : ofChars (c :: cs) = String.utf8EncodeChar c ++ ofChars cs := rfl

@[simp] theorem ofChars_append (cs ds : List Char) : ofChars (cs ++ ds) = ofChars cs ++ ofChars ds := List.flatMap_append

theorem ofText_ofList (cs : List Char) : ofText (String.ofList cs) = ofChars cs := by
  rw [ofText_eq_flatMap, String.toList_ofList]
  rfl

theorem ofChars_injective (h : ofChars cs = ofChars ds) : cs = ds := by
  rw [← ofText_ofList, ← ofText_ofList] at h
  exact String.ofList_inj.mp (ofText_injective h)

theorem length_le_length_ofChars (cs : List Char) : cs.length ≤ (ofChars cs).length := by
  induction cs with
  | nil => exact Nat.le_refl 0
  | cons c cs ih =>
    have hc := c.utf8Size_pos
    rw [ofChars_cons, List.length_append, String.length_utf8EncodeChar, List.length_cons]
    omega

theorem length_ofChars_of_plain (h : Plain cs) : (ofChars cs).length = cs.length := by
  rw [← ofText_ofList, length_ofText, utf8ByteSize_of_plain (by simpa using h), String.toList_ofList]

/-- A character that is not ASCII has a first byte that begins a character, and no byte that is ASCII. -/
theorem utf8EncodeChar_of_le (h : 128 ≤ c.toNat) :
    ∃ x rest, String.utf8EncodeChar c = x :: rest ∧ 192 ≤ x.toNat ∧ ∀ y ∈ rest, 128 ≤ y.toNat := by
  have hbyte (n : Nat) : (UInt8.ofNat n).toNat = n % 256 := rfl
  have hno : ¬c.val.toNat ≤ 127 := Nat.not_le.mpr h
  unfold String.utf8EncodeChar
  dsimp only
  rw [if_neg hno]
  -- Two, three or four bytes: the first has its two highest bits, the others the highest.
  split
  · refine ⟨_, _, rfl, ?_, ?_⟩
    · rw [hbyte]
      omega
    · simp only [List.mem_cons, List.not_mem_nil, or_false, forall_eq, hbyte]
      omega
  · split
    all_goals
      refine ⟨_, _, rfl, ?_, ?_⟩
      · rw [hbyte]
        omega
      · simp only [List.mem_cons, List.not_mem_nil, or_false, forall_eq_or_imp, forall_eq, hbyte]
        omega

theorem toNat_of_mem (hx : x ∈ String.utf8EncodeChar c) (hc : c.toNat < 128) : x.toNat = c.toNat := by
  rw [utf8EncodeChar_of_lt hc, List.mem_singleton] at hx
  rw [hx]
  exact Nat.mod_eq_of_lt (by omega)

/-- An ASCII byte is all of a character. -/
theorem utf8EncodeChar_of_mem (hx : x ∈ String.utf8EncodeChar c) (hlt : x.toNat < 128) :
    x.toNat = c.toNat ∧ String.utf8EncodeChar c = [x] := by
  have hc : c.toNat < 128 := by
    refine Nat.lt_of_not_le fun hc => ?_
    obtain ⟨y, rest, heq, hy, hrest⟩ := utf8EncodeChar_of_le hc
    rw [heq, List.mem_cons] at hx
    rcases hx with rfl | hx
    · omega
    · have := hrest x hx
      omega
  refine ⟨toNat_of_mem hx hc, ?_⟩
  rw [utf8EncodeChar_of_lt hc, List.mem_singleton] at hx
  rw [utf8EncodeChar_of_lt hc, hx]

/-- The first byte of a character is no continuation. -/
theorem head_utf8EncodeChar (c : Char) : ∃ x rest, String.utf8EncodeChar c = x :: rest ∧ isContinuation x = false := by
  by_cases hc : c.toNat < 128
  · refine ⟨_, [], utf8EncodeChar_of_lt hc, ?_⟩
    have : c.toNat.toUInt8.toNat = c.toNat := Nat.mod_eq_of_lt (by omega)
    simp [isContinuation, UInt8.le_iff_toNat_le]
    omega
  · obtain ⟨x, rest, heq, hx, -⟩ := utf8EncodeChar_of_le (Nat.le_of_not_lt hc)
    refine ⟨x, rest, heq, ?_⟩
    simp [isContinuation, UInt8.le_iff_toNat_le]
    omega

/-- Where a text has an ASCII byte, it has a character. -/
theorem ofChars_eq_append_cons (h : ofChars cs = run ++ x :: rest) (hx : x.toNat < 128) :
    ∃ front c back, cs = front ++ c :: back ∧ ofChars front = run ∧ String.utf8EncodeChar c = [x] ∧ ofChars back = rest := by
  induction cs generalizing run with
  | nil => simp at h
  | cons c cs ih =>
    rw [ofChars_cons, List.append_eq_append_iff] at h
    rcases h with ⟨more, rfl, hmore⟩ | ⟨more, heq, hmore⟩
    · obtain ⟨front, d, back, rfl, rfl, hd, hback⟩ := ih hmore
      exact ⟨c :: front, d, back, rfl, rfl, hd, hback⟩
    · cases more with
      | nil =>
        have hnone : ofChars cs = [] ++ x :: rest := hmore.symm
        obtain ⟨front, d, back, rfl, hfront, hd, hback⟩ := ih hnone
        refine ⟨c :: front, d, back, rfl, ?_, hd, hback⟩
        simp [heq, hfront]
      | cons y more =>
        obtain ⟨rfl, rfl⟩ := List.cons.inj hmore
        have hmem : x ∈ String.utf8EncodeChar c := by simp [heq]
        obtain ⟨-, hc⟩ := utf8EncodeChar_of_mem hmem hx
        rw [hc] at heq
        cases run with
        | nil =>
          obtain ⟨-, rfl⟩ := List.cons.inj heq
          exact ⟨[], c, cs, rfl, rfl, hc, rfl⟩
        | cons z run => simp at heq

/-- Behind characters there is a boundary. -/
theorem isBoundary_ofChars (cs ds : List Char) : isBoundary (ofChars (cs ++ ds)) (ofChars cs).length = true := by
  unfold isBoundary
  rw [ofChars_append, List.getElem?_append_right (Nat.le_refl _), Nat.sub_self]
  cases ds with
  | nil => simp
  | cons d ds =>
    obtain ⟨x, rest, hd, hx⟩ := head_utf8EncodeChar d
    simp [hd, hx]

/-- The piece between two boundaries. -/
theorem piece_append {front : Bytes} (hb : b = front ++ run ++ rest) (hstart : isBoundary b front.length = true)
    (hstop : isBoundary b (front.length + run.length) = true) : piece b front.length (front.length + run.length) = .ok run := by
  unfold piece
  rw [if_pos ⟨Nat.le_add_right _ _, hstart, hstop⟩, hb, List.append_assoc, List.drop_left, Nat.add_sub_cancel_left, List.take_left]

theorem byteAt_append (front : Bytes) (x : UInt8) (rest : Bytes) : byteAt (front ++ x :: rest) front.length = .ok x := by
  unfold byteAt
  rw [List.getElem?_append_right (Nat.le_refl _), Nat.sub_self]
  rfl

end Places
end Depot.Bytes
