import Depot.Proofs.Bytes
import Depot.Proofs.Disk.Names
import Depot.Store.Update

/-! Ids of images. They are what a hash looks like in hexadecimal digits, so they are names of files, their first
    twelve characters are their first twelve bytes, and every digest that is computed has one. But for the last, digits
    of either case and any number of them do. -/

namespace Depot.Store

/-- Of characters with one byte each, the first bytes are the first characters. -/
theorem bytesBefore?_of_single {cs : List Char} {limit : Nat} (h : ∀ c ∈ cs.take limit, c.utf8Size = 1) :
    bytesBefore? limit cs = some (cs.take limit) := by
  induction cs generalizing limit with
  | nil => rw [bytesBefore?, List.take_nil]
  | cons c cs ih =>
    unfold bytesBefore?
    split
    · next hzero => rw [hzero, List.take_zero]
    · next hpos =>
      obtain ⟨limit, rfl⟩ := Nat.exists_eq_succ_of_ne_zero hpos
      rw [List.take_succ_cons, List.forall_mem_cons] at h
      rw [h.1, if_pos (Nat.le_add_left 1 limit), Nat.succ_sub_one, ih h.2]
      rfl

theorem bytesBefore?_plain {cs : List Char} (h : Bytes.Plain cs) (limit : Nat) :
    bytesBefore? limit cs = some (cs.take limit) :=
  bytesBefore?_of_single fun c hc => Char.utf8Size_eq_one_iff.mpr (Nat.le_of_lt_succ (h c (List.mem_of_mem_take hc)).2)

theorem not_blank_of_digit {c : Char} (h : c ∈ "0123456789abcdef".toList) : Text.isBlank c = false := by
  have hall : ("0123456789abcdef".toList.all fun c => !Text.isBlank c) = true := by decide
  simpa using List.all_eq_true.mp hall c h

/-- Hexadecimal digits of either case, at least one. -/
structure IsHexId (id : String) : Prop where
  ne_nil : id.toList ≠ []
  digits : ∀ c ∈ id.toList, c ∈ "0123456789abcdefABCDEF".toList

namespace IsHexId
variable {id : String}

theorem isName (h : IsHexId id) : IsName id where
  ne_nil := h.ne_nil
  no_slash hmem := absurd (h.digits '/' hmem) (by decide)
  ne_dot hdot := absurd (h.digits '.' (by simp [hdot])) (by decide)
  ne_dots hdots := absurd (h.digits '.' (by simp [hdots])) (by decide)

theorem plain (h : IsHexId id) : Bytes.Plain id.toList := by
  have hdigits : Bytes.Plain "0123456789abcdefABCDEF".toList := by decide
  exact fun c hc => hdigits c (h.digits c hc)

theorem indexedId? (h : IsHexId id) : indexedId? id = some (String.ofList (id.toList.take 12)) := by
  unfold Store.indexedId?
  rw [bytesBefore?_plain h.plain]
  rfl

/-- The short id has no more than twelve characters, all of them digits of the id. -/
theorem digits_short {short : String} (h : IsHexId id) (hshort : Store.indexedId? id = some short) :
    short.toList.length ≤ 12 ∧ ∀ c ∈ short.toList, c ∈ "0123456789abcdefABCDEF".toList := by
  rw [h.indexedId?] at hshort
  cases hshort
  rw [String.toList_ofList]
  exact ⟨List.length_take_le .., fun c hc => h.digits c (List.mem_of_mem_take hc)⟩

end IsHexId

/-- The id of an image: 64 hexadecimal digits in lower case. -/
structure IsImageId (id : String) : Prop where
  length : id.toList.length = 64
  digits : ∀ c ∈ id.toList, c ∈ "0123456789abcdef".toList

instance (id : String) : Decidable (IsImageId id) :=
  decidable_of_iff (id.toList.length = 64 ∧ id.toList.all (· ∈ "0123456789abcdef".toList) = true) (by
    rw [List.all_eq_true]
    exact ⟨fun h => ⟨h.1, fun c hc => of_decide_eq_true (h.2 c hc)⟩, fun h => ⟨h.1, fun c hc => decide_eq_true (h.2 c hc)⟩⟩)

namespace IsImageId
variable {id : String}

theorem isHexId (h : IsImageId id) : IsHexId id where
  ne_nil hnil := absurd h.length (by simp [hnil])
  digits c hc := by
    have hmore : "0123456789abcdefABCDEF".toList = "0123456789abcdef".toList ++ "ABCDEF".toList := by decide
    rw [hmore]
    exact List.mem_append_left _ (h.digits c hc)

theorem isName (h : IsImageId id) : IsName id := h.isHexId.isName

theorem plain (h : IsImageId id) : Bytes.Plain id.toList := h.isHexId.plain

theorem not_blank (h : IsImageId id) : ∀ c ∈ id.toList, Text.isBlank c = false :=
  fun c hc => not_blank_of_digit (h.digits c hc)

theorem indexedId? (h : IsImageId id) : indexedId? id = some (String.ofList (id.toList.take 12)) := h.isHexId.indexedId?

theorem utf8ByteSize (h : IsImageId id) : id.utf8ByteSize = 64 :=
  (Bytes.utf8ByteSize_of_plain h.plain).trans h.length

theorem isFileName (h : IsImageId id) : Disk.IsFileName id where
  toIsName := h.isName
  short := by
    rw [h.utf8ByteSize]
    decide
  no_nul hmem := absurd (h.digits _ hmem) (by decide)

end IsImageId

theorem digitChar_mem : ∀ n < 16, Nat.digitChar n ∈ "0123456789abcdef".toList := by decide

theorem isImageId_hexOf (b : Bytes) : IsImageId (Digest.hexOf b) where
  length := Digest.length_hexOf b
  digits c hc := by
    unfold Digest.hexOf Bytes.hex at hc
    rw [String.toList_ofList, List.mem_flatMap] at hc
    obtain ⟨byte, -, hc⟩ := hc
    have hbyte := byte.toNat_lt
    unfold Bytes.hexPair at hc
    rw [List.mem_cons, List.mem_singleton] at hc
    rcases hc with rfl | rfl
    · exact digitChar_mem _ (by omega)
    · exact digitChar_mem _ (by omega)

theorem isHexId_hexOf (b : Bytes) : IsHexId (Digest.hexOf b) := (isImageId_hexOf b).isHexId

/-- What has hexadecimal digits only has no algorithm in front. -/
theorem encoded_of_digits {text : String} (h : ∀ c ∈ text.toList, c ∈ "0123456789abcdef".toList) : Digest.encoded text = text := by
  unfold Digest.encoded
  cases hafter : Text.after? Digest.algorithm.toList text.toList with
  | none => rfl
  | some rest =>
    have hlead := Text.after?_eq_some_iff.mp hafter
    exact absurd (h 's' (by simp [hlead, Digest.algorithm])) (by decide)

theorem IsImageId.encoded {id : String} (h : IsImageId id) : Digest.encoded id = id := encoded_of_digits h.digits

theorem encoded_hexOf (b : Bytes) : Digest.encoded (Digest.hexOf b) = Digest.hexOf b := (isImageId_hexOf b).encoded

end Depot.Store
