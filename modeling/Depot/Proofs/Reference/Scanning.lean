import Depot.Proofs.Bytes
import Depot.Proofs.Reference.Grammar
import Depot.Reference.Parser

/-! Reading by bytes is never stopped. The scan of a path component may stand in the middle of a character, but only
    inside what is no word: a byte of a word is a character of its own, so what is cut out before one begins and ends
    between characters, and so does what is cut out at the end. Each step of the scan leaves it less to do. What it
    accepts is a component of the grammar. -/

namespace Depot.Reference
open Bytes Grammar
variable {t : UInt8 → Bool} {p : Char → Prop} {c : Char} {cs front back sep tail : List Char} {run rest : Bytes} {x : UInt8}

/-! ### Tests of bytes -/

/-- The test says of each byte of a character what is to be said of the character. -/
def Tells (t : UInt8 → Bool) (p : Char → Prop) : Prop := ∀ c, ∀ x ∈ String.utf8EncodeChar c, t x = true ↔ p c

/-- Bytes and characters are tested by their numbers, and only ASCII passes. -/
theorem tells_of_number {q : Nat → Prop} (hbyte : ∀ x, t x = true ↔ q x.toNat) (hchar : ∀ c, p c ↔ q c.toNat)
    (hascii : ∀ n, q n → n < 128) : Tells t p := by
  intro c x hx
  rw [hbyte, hchar]
  by_cases hlt : x.toNat < 128
  · rw [(utf8EncodeChar_of_mem hx hlt).1]
  · refine iff_of_false (mt (hascii _) hlt) fun hc => hlt ?_
    rw [toNat_of_mem hx (hascii _ hc)]
    exact hascii _ hc

theorem tells_word : Tells isWordByte fun c => Lower c ∨ Digit c := by
  refine tells_of_number (q := fun n => 97 ≤ n ∧ n ≤ 122 ∨ 48 ≤ n ∧ n ≤ 57) (fun x => ?_) (fun c => ?_) (by omega)
  · simp [isWordByte, UInt8.le_iff_toNat_le]
  · exact Iff.rfl

theorem tells_upper : Tells (fun x => 0x41 ≤ x && x ≤ 0x5a) Upper := by
  refine tells_of_number (q := fun n => 65 ≤ n ∧ n ≤ 90) (fun x => ?_) (fun c => ?_) (by omega)
  · simp [UInt8.le_iff_toNat_le]
  · exact Iff.rfl

theorem tells_char {d : Char} (hd : d.toNat < 128) : Tells (· == d.toUInt8) (· = d) := by
  have hbyte : d.toUInt8.toNat = d.toNat := Nat.mod_eq_of_lt (show d.toNat < 256 by omega)
  refine tells_of_number (q := (· = d.toNat)) (fun x => ?_) (fun c => ?_) (by omega)
  · rw [beq_iff_eq, ← hbyte, UInt8.toNat_inj]
  · exact Char.toNat_inj.symm

namespace Tells
variable {t' : UInt8 → Bool} {p' : Char → Prop}

theorem or (h : Tells t p) (h' : Tells t' p') : Tells (fun x => t x || t' x) fun c => p c ∨ p' c := by
  intro c x hx
  rw [Bool.or_eq_true, h c x hx, h' c x hx]

theorem first (h : Tells t p) (c : Char) : ∃ x rest, String.utf8EncodeChar c = x :: rest ∧ (t x = true ↔ p c) := by
  obtain ⟨x, rest, hc, -⟩ := head_utf8EncodeChar c
  exact ⟨x, rest, hc, h c x (by simp [hc])⟩

theorem last (h : Tells t p) (c : Char) : ∃ bytes y, String.utf8EncodeChar c = bytes ++ [y] ∧ (t y = true ↔ p c) := by
  rcases List.eq_nil_or_concat (String.utf8EncodeChar c) with hnil | ⟨bytes, y, hc⟩
  · exact absurd hnil String.utf8EncodeChar_ne_nil
  · rw [List.concat_eq_append] at hc
    exact ⟨bytes, y, hc, h c y (by simp [hc])⟩

theorem all (h : Tells t p) (cs : List Char) : (ofChars cs).all t = true ↔ ∀ c ∈ cs, p c := by
  rw [List.all_eq_true]
  constructor
  · intro hall c hc
    obtain ⟨x, rest, heq, hx⟩ := h.first c
    exact hx.mp (hall x (List.mem_flatMap.mpr ⟨c, hc, by simp [heq]⟩))
  · intro hall x hx
    obtain ⟨c, hc, hx⟩ := List.mem_flatMap.mp hx
    exact (h c x hx).mpr (hall c hc)

end Tells

theorem tells_tagStart : Tells isTagByte TagStart := by
  intro c x hx
  refine ((tells_word.or tells_upper).or (tells_char (d := '_') (by decide)) c x hx).trans ?_
  unfold TagStart
  grind

/-! ### The scan of a component -/

theorem isSeparator_iff (hne : sep ≠ []) : isSeparator (ofChars sep) = true ↔ Separator sep := by
  have hdashes : sep = List.replicate (sep.length - 1 + 1) '-' ↔ ∀ c ∈ sep, c = '-' := by
    have hlength := List.length_pos_iff.mpr hne
    rw [List.eq_replicate_iff]
    exact and_iff_right (by omega)
  have hspells (word : List Char) : (ofChars sep == ofChars word) = true ↔ sep = word := by
    rw [beq_iff_eq]
    exact ⟨ofChars_injective, congrArg ofChars⟩
  unfold isSeparator
  simp only [Bool.or_eq_true, hspells, (tells_char (d := '-') (by decide)).all, or_assoc]
  constructor
  · rintro (rfl | rfl | rfl | h)
    · exact .dot
    · exact .score
    · exact .twoScores
    · rw [hdashes.mpr h]
      exact .dashes _
  · intro h
    cases h with
    | dot => simp
    | score => simp
    | twoScores => simp
    | dashes n => exact Or.inr (Or.inr (Or.inr fun c hc => List.eq_of_mem_replicate hc))

/-- Where the scan of a text may stand, and what it then asks of the text. In what is no word it may be anywhere, but it
    knows where that began. -/
inductive Stands (cs : List Char) : Cursor → Prop → Prop
  | between {front back : List Char} (hcs : cs = front ++ back) :
      Stands cs (.between (ofChars front).length) (Tail back)
  | inside {front back more : List Char} {c : Char} {run rest : Bytes} (hcs : cs = front ++ back)
      (hback : ofChars back = run ++ rest) (hrun : ∀ x ∈ run, isWordByte x = false) (hbegin : back = c :: more)
      (hc : ¬(Lower c ∨ Digit c)) :
      Stands cs (.inside (ofChars front).length ((ofChars front).length + run.length)) (Tail back)
  | done (accepted : Bool) : Stands cs (.done accepted) (accepted = true)

/-- How much there is still to do for a text of `n` bytes. -/
def Cursor.left (n : Nat) : Cursor → Nat
  | between i => 3 * (n - i) + 2
  | inside start i => n - i + 2 * (n - start) + 1
  | done _ => 0

@[simp] theorem Cursor.left_between (n i : Nat) : (between i).left n = 3 * (n - i) + 2 := rfl

@[simp] theorem Cursor.left_inside (n start i : Nat) : (inside start i).left n = n - i + 2 * (n - start) + 1 := rfl

theorem Cursor.step_between {b pre : Bytes} (hb : b = pre ++ x :: rest) : (between pre.length).step b =
    .ok (if isWordByte x then between (pre.length + 1) else inside pre.length pre.length) := by
  have hbyte : b.byteAt pre.length = .ok x := hb ▸ byteAt_append pre x rest
  refine (if_pos (by simp [hb])).trans ?_
  rw [hbyte]
  exact (apply_ite Except.ok _ _ _).symm

theorem Cursor.step_inside_end {b : Bytes} {start i : Nat} (h : ¬i < b.length) :
    (inside start i).step b = leave b start i := if_neg h

theorem Cursor.step_inside {b pre : Bytes} (hb : b = pre ++ run ++ x :: rest) :
    (inside pre.length (pre.length + run.length)).step b = if isWordByte x then leave b pre.length (pre.length + run.length)
      else .ok (inside pre.length (pre.length + run.length + 1)) := by
  have hbyte : b.byteAt (pre.length + run.length) = .ok x := by
    rw [hb, ← List.length_append]
    exact byteAt_append (pre ++ run) x rest
  refine (if_pos (by simp [hb])).trans ?_
  rw [hbyte]
  rfl

/-- The scan goes on from `k`: with less to do, and it asks the same of a text that ends in a word. -/
def Advances (cs : List Char) (k : Cursor) (asked : Prop) (result : Except Fault Cursor) : Prop :=
  ∃ k' asked', result = .ok k' ∧ Stands cs k' asked' ∧ k'.left (ofChars cs).length < k.left (ofChars cs).length ∧
    (EndsInWord cs → (asked ↔ asked'))

theorem lt_of_isWordByte (hx : isWordByte x = true) : x.toNat < 128 := by
  simp [isWordByte, UInt8.le_iff_toNat_le] at hx
  omega

/-- Of characters whose bytes are in no word, none is in one. -/
theorem notWord_of_run (hrun : ∀ x ∈ ofChars sep, isWordByte x = false) : ∀ c ∈ sep, ¬(Lower c ∨ Digit c) := by
  intro c hc hword
  obtain ⟨x, rest, heq, hx⟩ := tells_word.first c
  have hfalse := hrun x (List.mem_flatMap.mpr ⟨c, hc, by simp [heq]⟩)
  rw [hx.mpr hword] at hfalse
  cases hfalse

/-- Bytes that are in no word, up to one that is or to the end, are those of whole characters. -/
theorem exists_sep (hback : ofChars back = run ++ rest) (hrest : ∀ x ∈ rest.head?, isWordByte x = true) :
    ∃ sep tail, back = sep ++ tail ∧ ofChars sep = run ∧ ∀ d ∈ tail.head?, Lower d ∨ Digit d := by
  cases rest with
  | nil => exact ⟨back, [], by simp, by simpa using hback, by simp⟩
  | cons x rest =>
    have hword := hrest x rfl
    obtain ⟨sep, d, tail, rfl, hsep, hd, -⟩ := ofChars_eq_append_cons hback (lt_of_isWordByte hword)
    refine ⟨sep, d :: tail, rfl, hsep, ?_⟩
    simpa using (tells_word d x (by simp [hd])).mp hword

theorem piece_ofChars (front sep tail : List Char) :
    (ofChars (front ++ (sep ++ tail))).piece (ofChars front).length (ofChars (front ++ sep)).length = .ok (ofChars sep) := by
  have hbytes : ofChars (front ++ (sep ++ tail)) = ofChars front ++ ofChars sep ++ ofChars tail := by simp
  have hstop := isBoundary_ofChars (front ++ sep) tail
  rw [List.append_assoc] at hstop
  have hlength : (ofChars (front ++ sep)).length = (ofChars front).length + (ofChars sep).length := by simp
  rw [hlength] at hstop ⊢
  exact piece_append hbytes (isBoundary_ofChars front (sep ++ tail)) hstop

/-- What is between two words, or behind the last, is cut out and must be a separator, and the text must go on. -/
theorem advances_leave (hcs : cs = front ++ (sep ++ tail)) (hne : sep ≠ []) (hsep : ∀ c ∈ sep, ¬(Lower c ∨ Digit c))
    (htail : ∀ c ∈ tail.head?, Lower c ∨ Digit c) :
    Advances cs (.inside (ofChars front).length (ofChars (front ++ sep)).length) (Tail (sep ++ tail))
      (Cursor.leave (ofChars cs) (ofChars front).length (ofChars (front ++ sep)).length) := by
  have hpos : 0 < (ofChars sep).length :=
    Nat.lt_of_lt_of_le (List.length_pos_iff.mpr hne) (length_le_length_ofChars sep)
  have hasked : EndsInWord cs → (Tail (sep ++ tail) ↔ Separator sep ∧ Tail tail) := by
    intro hends
    -- A text that ends in a word goes on behind what is no part of one.
    cases tail with
    | nil =>
      obtain ⟨c, hc⟩ : ∃ c, sep.getLast? = some c := ⟨_, List.getLast?_eq_some_getLast hne⟩
      refine absurd (hends c ?_) (hsep c (List.mem_of_getLast? hc))
      simp [hcs, hc]
    | cons d more => exact tail_append_cons hne hsep (htail d rfl)
  have hleave : Cursor.leave (ofChars cs) (ofChars front).length (ofChars (front ++ sep)).length =
      .ok (if isSeparator (ofChars sep) then .between (ofChars (front ++ sep)).length else .done false) := by
    unfold Cursor.leave
    rw [hcs, piece_ofChars]
    exact (apply_ite Except.ok _ _ _).symm
  rw [hleave]
  by_cases hseparator : Separator sep
  · refine ⟨.between (ofChars (front ++ sep)).length, Tail tail, ?_, .between (by simp [hcs]), ?_, fun hends => ?_⟩
    · rw [if_pos ((isSeparator_iff hne).mpr hseparator)]
    · simp only [Cursor.left_between, Cursor.left_inside, hcs, ofChars_append, List.length_append]
      omega
    · rw [hasked hends, and_iff_right hseparator]
  · refine ⟨.done false, false = true, ?_, .done false, Nat.succ_pos _, fun hends => ?_⟩
    · rw [if_neg (mt (isSeparator_iff hne).mp hseparator)]
    · rw [hasked hends]
      simp [hseparator]

theorem advances_between (hcs : cs = front ++ back) :
    Advances cs (.between (ofChars front).length) (Tail back) (Cursor.step (ofChars cs) (.between (ofChars front).length)) := by
  cases back with
  | nil =>
    have hend : ¬(ofChars front).length < (ofChars cs).length := by simp [hcs]
    exact ⟨.done true, true = true, if_neg hend, .done true, Nat.succ_pos _, fun _ => iff_of_true tail_nil rfl⟩
  | cons c more =>
    obtain ⟨x, rest, hc, hx⟩ := tells_word.first c
    have hbytes : ofChars cs = ofChars front ++ x :: (rest ++ ofChars more) := by simp [hcs, hc]
    rw [Cursor.step_between hbytes]
    by_cases hword : isWordByte x = true
    · have hone : String.utf8EncodeChar c = [x] := (utf8EncodeChar_of_mem (by simp [hc]) (lt_of_isWordByte hword)).2
      have hnext : (ofChars front).length + 1 = (ofChars (front ++ [c])).length := by simp [hone]
      refine ⟨.between (ofChars (front ++ [c])).length, Tail more, ?_, .between (by simp [hcs]), ?_, fun _ => ?_⟩
      · rw [if_pos hword, hnext]
      · simp only [← hnext, Cursor.left_between, hbytes, List.length_append, List.length_cons]
        omega
      · exact tail_cons (hx.mp hword)
    · refine ⟨.inside (ofChars front).length (ofChars front).length, Tail (c :: more), ?_, ?_, ?_, fun _ => Iff.rfl⟩
      · rw [if_neg hword]
      · exact .inside hcs (List.nil_append _).symm (List.forall_mem_nil _) rfl (mt hx.mpr hword)
      · simp only [Cursor.left_between, Cursor.left_inside]
        omega

theorem advances_inside {more : List Char} (hcs : cs = front ++ back) (hback : ofChars back = run ++ rest)
    (hrun : ∀ x ∈ run, isWordByte x = false) (hbegin : back = c :: more) (hc : ¬(Lower c ∨ Digit c)) :
    Advances cs (.inside (ofChars front).length ((ofChars front).length + run.length)) (Tail back)
      (Cursor.step (ofChars cs) (.inside (ofChars front).length ((ofChars front).length + run.length))) := by
  have hbytes : ofChars cs = ofChars front ++ run ++ rest := by simp [hcs, hback]
  -- A byte of a word begins a character, so what was passed before it can be cut out.
  have hleave (hrest : ∀ x ∈ rest.head?, isWordByte x = true) :
      Advances cs (.inside (ofChars front).length ((ofChars front).length + run.length)) (Tail back)
        (Cursor.leave (ofChars cs) (ofChars front).length ((ofChars front).length + run.length)) := by
    obtain ⟨sep, tail, rfl, rfl, htail⟩ := exists_sep hback hrest
    rw [← List.length_append, ← ofChars_append]
    refine advances_leave hcs ?_ (notWord_of_run hrun) htail
    rintro rfl
    rw [List.nil_append] at hbegin
    exact hc (htail c (by simp [hbegin]))
  cases rest with
  | nil =>
    rw [Cursor.step_inside_end (by simp [hbytes])]
    exact hleave (by simp)
  | cons x rest =>
    rw [Cursor.step_inside hbytes]
    by_cases hword : isWordByte x = true
    · rw [if_pos hword]
      exact hleave (by simpa using hword)
    · have hmore : (ofChars front).length + run.length + 1 = (ofChars front).length + (run ++ [x]).length := by
        simp [Nat.add_assoc]
      have hback' : ofChars back = (run ++ [x]) ++ rest := by simp [hback]
      refine ⟨.inside (ofChars front).length ((ofChars front).length + (run ++ [x]).length), Tail back, ?_, ?_, ?_,
        fun _ => Iff.rfl⟩
      · rw [if_neg hword, hmore]
      · refine .inside hcs hback' ?_ hbegin hc
        rw [List.forall_mem_append]
        exact ⟨hrun, by simpa using hword⟩
      · simp only [Cursor.left_inside, hbytes, List.length_append, List.length_cons, List.length_nil]
        omega

/-- What the scan cuts out, before a word or at the end, are the bytes of whole characters. -/
theorem Stands.cut {start i : Nat} {asked : Prop} (h : Stands cs (.inside start i) asked)
    (hword : ∀ x ∈ (ofChars cs)[i]?, isWordByte x = true) :
    ∃ front sep tail, cs = front ++ (sep ++ tail) ∧ start = (ofChars front).length ∧ i = (ofChars (front ++ sep)).length ∧
      (ofChars cs).piece start i = .ok (ofChars sep) := by
  cases h with
  | @inside front back more c run rest hcs hback hrun hbegin hc =>
    have hrest : ∀ x ∈ rest.head?, isWordByte x = true := by
      intro x hx
      refine hword x ?_
      have hbytes : ofChars cs = (ofChars front ++ run) ++ rest := by simp [hcs, hback]
      rw [hbytes, ← List.length_append, List.getElem?_append_right (Nat.le_refl _), Nat.sub_self, ← List.head?_eq_getElem?]
      exact hx
    obtain ⟨sep, tail, rfl, rfl, -⟩ := exists_sep hback hrest
    refine ⟨front, sep, tail, hcs, rfl, by simp, ?_⟩
    have hpiece := piece_ofChars front sep tail
    rwa [← hcs, ofChars_append, List.length_append] at hpiece

/-- The scan is at its end, or the next step goes through and leaves it less to do. -/
theorem Stands.advances {k : Cursor} {asked : Prop} (h : Stands cs k asked) :
    (∃ accepted, k = .done accepted ∧ asked = (accepted = true)) ∨ Advances cs k asked (k.step (ofChars cs)) := by
  cases h with
  | between hcs => exact Or.inr (advances_between hcs)
  | inside hcs hback hrun hbegin hc => exact Or.inr (advances_inside hcs hback hrun hbegin hc)
  | done accepted => exact Or.inl ⟨accepted, rfl, rfl⟩

theorem Cursor.run_step {k k' : Cursor} {b : Bytes} (hstep : k.step b = .ok k') (n : Nat) : k.run b (n + 1) = k'.run b n := by
  cases k with
  | done accepted =>
    cases hstep
    cases n <;> rfl
  | between i =>
    show (between i).step b >>= Cursor.run b n = _
    rw [hstep]
    rfl
  | inside start i =>
    show (inside start i).step b >>= Cursor.run b n = _
    rw [hstep]
    rfl

/-- The scan ends, if as many steps are granted as there is left to do, and says whether what is asked holds. -/
theorem Stands.ends {k : Cursor} {asked : Prop} {n : Nat} (h : Stands cs k asked) (hn : k.left (ofChars cs).length ≤ n) :
    ∃ accepted, k.run (ofChars cs) n = .ok accepted ∧ (EndsInWord cs → (accepted = true ↔ asked)) := by
  induction n generalizing k asked with
  | zero =>
    rcases h.advances with ⟨accepted, rfl, rfl⟩ | ⟨k', asked', -, -, hless, -⟩
    · exact ⟨accepted, rfl, fun _ => Iff.rfl⟩
    · omega
  | succ n ih =>
    rcases h.advances with ⟨accepted, rfl, rfl⟩ | ⟨k', asked', hstep, hstands, hless, hasked⟩
    · exact ⟨accepted, rfl, fun _ => Iff.rfl⟩
    · obtain ⟨accepted, hrun, haccepted⟩ := ih hstands (by omega)
      refine ⟨accepted, ?_, fun hends => (haccepted hends).trans (hasked hends).symm⟩
      rw [Cursor.run_step hstep, hrun]

/-- The scan stands between words at its beginning. -/
theorem Stands.start (cs : List Char) : Stands cs (.between 0) (Tail cs) := .between (List.nil_append cs).symm

/-- Where the scan of a text gets to, step by step. -/
inductive Cursor.Reached (b : Bytes) : Cursor → Prop
  | start : Reached b (.between 0)
  | step {k k' : Cursor} (hreached : Reached b k) (hstep : k.step b = .ok k') : Reached b k'

theorem Cursor.Reached.stands {k : Cursor} (h : k.Reached (ofChars cs)) : ∃ asked, Stands cs k asked := by
  induction h with
  | start => exact ⟨_, .start cs⟩
  | @step k k' _ hstep ih =>
    obtain ⟨asked, hstands⟩ := ih
    rcases hstands.advances with ⟨accepted, rfl, -⟩ | ⟨k'', asked', hstep', hstands', -⟩
    · cases hstep
      exact ⟨_, .done accepted⟩
    · cases hstep.symm.trans hstep'
      exact ⟨asked', hstands'⟩

/-- The scan begins only if there is a word at either end. -/
theorem scanComponent_eq {b bytes : Bytes} {y : UInt8} (hfirst : b = x :: rest) (hlast : b = bytes ++ [y]) :
    scanComponent b = if isWordByte x ∧ isWordByte y then Cursor.run b (3 * b.length + 2) (.between 0) else .ok false := by
  have hx : b.byteAt 0 = .ok x := hfirst ▸ byteAt_append [] x rest
  have hy : b.byteAt (b.length - 1) = .ok y := by
    have hplace : b.length - 1 = bytes.length := by simp [hlast]
    rw [hplace, hlast]
    exact byteAt_append bytes y []
  have hne : ¬b.isEmpty = true := by simp [hfirst]
  unfold scanComponent
  rw [if_neg hne, hx, hy]
  show (if !isWordByte x then .ok false else if !isWordByte y then .ok false
    else Cursor.run b (3 * b.length + 2) (.between 0)) = _
  cases isWordByte x <;> cases isWordByte y <;> rfl

/-- The bytes of a component are scanned to the end, whatever characters they are of, and it is accepted by the
    grammar. -/
theorem scanComponent_ofChars (cs : List Char) :
    ∃ accepted, scanComponent (ofChars cs) = .ok accepted ∧ (accepted = true ↔ Component cs) := by
  cases cs with
  | nil => exact ⟨false, rfl, iff_of_false (by simp) not_component_nil⟩
  | cons c more =>
    obtain ⟨init, d, hcs⟩ : ∃ init d, c :: more = init ++ [d] :=
      ⟨_, _, (List.dropLast_concat_getLast (List.cons_ne_nil c more)).symm⟩
    obtain ⟨x, rest, hc, hx⟩ := tells_word.first c
    obtain ⟨bytes, y, hd, hy⟩ := tells_word.last d
    have hfirst : ofChars (c :: more) = x :: (rest ++ ofChars more) := by simp [hc]
    have hlast : ofChars (c :: more) = (ofChars init ++ bytes) ++ [y] := by simp [hcs, hd]
    have hends : EndsInWord (c :: more) ↔ Lower d ∨ Digit d := by
      unfold EndsInWord
      rw [hcs]
      simp
    rw [scanComponent_eq hfirst hlast]
    split
    · next hwords =>
      obtain ⟨accepted, hrun, haccepted⟩ := (Stands.start (c :: more)).ends (Nat.le_refl _)
      refine ⟨accepted, hrun, (haccepted (hends.mpr (hy.mp hwords.2))).trans ?_⟩
      rw [component_cons, tail_cons (hx.mp hwords.1), and_iff_right (hx.mp hwords.1)]
    · next hwords =>
      refine ⟨false, rfl, iff_of_false (by simp) fun hcomponent => hwords ⟨hx.mpr ?_, hy.mpr (hends.mp hcomponent.endsInWord)⟩⟩
      exact (component_cons.mp hcomponent).1

/-! ### The scan of a tag -/

theorem Grammar.Tag.plain (h : Tag cs) : Plain cs := by
  intro c hc
  rcases h.chars c hc with ⟨h₁, h₂⟩ | ⟨h₁, h₂⟩ | ⟨h₁, h₂⟩ | rfl | rfl | rfl
  · exact ⟨Nat.lt_of_lt_of_le (by decide) h₁, Nat.lt_of_le_of_lt h₂ (by decide)⟩
  · exact ⟨Nat.lt_of_lt_of_le (by decide) h₁, Nat.lt_of_le_of_lt h₂ (by decide)⟩
  · exact ⟨Nat.lt_of_lt_of_le (by decide) h₁, Nat.lt_of_le_of_lt h₂ (by decide)⟩
  all_goals decide

theorem scanTag_eq {b : Bytes} (hfirst : b = x :: rest) (hlength : b.length ≤ 128) : scanTag b =
    .ok (isTagByte x && rest.all fun x => isTagByte x || x == '.'.toUInt8 || x == '-'.toUInt8) := by
  have hx : b.byteAt 0 = .ok x := hfirst ▸ byteAt_append [] x rest
  have hbehind : b.behind 1 = .ok rest := by
    unfold behind
    rw [if_pos (by simp [hfirst]), hfirst]
    rfl
  unfold scanTag
  have hempty : b.isEmpty = false := by simp [hfirst]
  have hne : ¬(b.isEmpty || b.length > 128) = true := by simp [hempty, hlength]
  rw [if_neg hne, hx, hbehind]
  show (if !isTagByte x then Except.ok false else Except.ok _) = _
  cases isTagByte x <;> rfl

/-- The bytes of a tag are all there where they are looked for, and it is accepted by the grammar. -/
theorem scanTag_ofChars (cs : List Char) : ∃ accepted, scanTag (ofChars cs) = .ok accepted ∧ (accepted = true ↔ Tag cs) := by
  cases cs with
  | nil => exact ⟨false, rfl, iff_of_false (by simp) not_tag_nil⟩
  | cons c more =>
    by_cases hlength : (ofChars (c :: more)).length ≤ 128
    · obtain ⟨x, bytes, hc, hstart⟩ := tells_tagStart.first c
      have htells := (tells_tagStart.or (tells_char (d := '.') (by decide))).or (tells_char (d := '-') (by decide))
      have hbytes : ofChars (c :: more) = x :: (bytes ++ ofChars more) := by simp [hc]
      refine ⟨_, scanTag_eq hbytes hlength, ?_⟩
      rw [tag_cons, Bool.and_eq_true, hstart]
      refine and_congr_right fun hc' => ?_
      have hone := utf8EncodeChar_of_lt (Tag.plain ⟨c, [], rfl, hc', by simp, by simp⟩ c (by simp)).2
      obtain rfl : bytes = [] := (List.cons.inj (hc.symm.trans hone)).2
      have hmore := length_le_length_ofChars (c :: more)
      rw [List.length_cons] at hmore
      rw [List.nil_append, htells.all, and_iff_right (by omega)]
      simp [or_assoc]
    · refine ⟨false, ?_, iff_of_false (by simp) fun htag => hlength ?_⟩
      · unfold scanTag
        rw [if_pos (by simpa using hlength)]
        rfl
      · have hplain := length_ofChars_of_plain htag.plain
        obtain ⟨-, hmore, -⟩ := tag_cons.mp htag
        rw [hplain, List.length_cons]
        omega

/-! ### The parser -/

/-- Tests that go through for everything in a list go through together. -/
theorem allM_ok {ε α : Type} {f : α → Except ε Bool} {P : α → Prop} (h : ∀ a, ∃ b, f a = .ok b ∧ (b = true ↔ P a)) (l : List α) :
    ∃ b, l.allM f = .ok b ∧ (b = true ↔ ∀ a ∈ l, P a) := by
  induction l with
  | nil => exact ⟨true, rfl, by simp⟩
  | cons a l ih =>
    obtain ⟨b, hb, hP⟩ := h a
    obtain ⟨b', hb', hP'⟩ := ih
    rw [List.allM, hb]
    cases b with
    | true => exact ⟨b', hb', by simp [hP', hP.mp rfl]⟩
    | false => exact ⟨false, rfl, by simp [mt hP.mpr]⟩

/-- The parts of a reference are looked at without a stop. -/
theorem check_eq (name : List Char) (tag digest : Option (List Char)) : ∃ tagged formed : Bool,
    (tagged = true ↔ ∀ t ∈ tag, Tag t) ∧ (formed = true ↔ ∀ c ∈ Text.pieces '/' (splitDomain name).2, Component c) ∧
    check name tag digest = .ok (if digest.any fun d => !isDigest d then some .digest else if !tagged then some .tag
      else if byteLength name > 255 then some .tooLong
      else if (splitDomain name).1.any fun d => !isDomain d then some .domain else if !formed then some .format else none) := by
  obtain ⟨tagged, htags, htagged⟩ := allM_ok scanTag_ofChars tag.toList
  obtain ⟨formed, hcomponents, hformed⟩ := allM_ok scanComponent_ofChars (Text.pieces '/' (splitDomain name).2)
  refine ⟨tagged, formed, by simpa using htagged, hformed, ?_⟩
  unfold check
  rw [htags, hcomponents]
  show (if _ then Except.ok _ else if !tagged then Except.ok _ else if _ then Except.ok _ else if _ then Except.ok _
    else if !formed then Except.ok _ else Except.ok none) = _
  simp only [apply_ite Except.ok]

theorem exists_check (name : List Char) (tag digest : Option (List Char)) : ∃ found, check name tag digest = .ok found := by
  obtain ⟨tagged, formed, -, -, heq⟩ := check_eq name tag digest
  exact ⟨_, heq⟩

theorem ite_some_eq_none_iff {α : Type} {P : Prop} [Decidable P] {a : α} {o : Option α} :
    (if P then some a else o) = none ↔ ¬P ∧ o = none := by
  split
  · next h => simp [h]
  · next h => simp [h]

theorem not_any_iff (test : List Char → Bool) (o : Option (List Char)) :
    (¬(o.any fun d => !test d) = true) ↔ ∀ d ∈ o, test d = true := by
  cases o <;> simp

theorem check_eq_ok_none_iff {name : List Char} {tag digest : Option (List Char)} : check name tag digest = .ok none ↔
    (∀ d ∈ digest, isDigest d = true) ∧ (∀ t ∈ tag, Tag t) ∧ byteLength name ≤ 255 ∧
      (∀ d ∈ (splitDomain name).1, isDomain d = true) ∧ ∀ c ∈ Text.pieces '/' (splitDomain name).2, Component c := by
  obtain ⟨tagged, formed, htagged, hformed, heq⟩ := check_eq name tag digest
  have hholds (b : Bool) : (¬(!b) = true) ↔ b = true := by simp
  rw [heq, ← htagged, ← hformed, ← not_any_iff, ← not_any_iff, ← Nat.not_lt, Except.ok.injEq]
  simp only [ite_some_eq_none_iff, hholds, and_true]

/-- A name that is too long is found after the digest and the tag. -/
theorem check_of_long {name : List Char} {tag digest : Option (List Char)} (hdigest : ∀ d ∈ digest, isDigest d = true)
    (htag : ∀ t ∈ tag, Tag t) (hlong : 255 < byteLength name) : check name tag digest = .ok (some .tooLong) := by
  obtain ⟨tagged, formed, htagged, -, heq⟩ := check_eq name tag digest
  rw [heq, if_neg ((not_any_iff isDigest digest).mpr hdigest), if_neg (by simp [htagged.mpr htag]), if_pos hlong]

/-- Reading by bytes is never stopped. Wherever the scan of a text gets to, it is at its end or can go on and then has less
    to do. What it cuts out are the bytes of whole characters. It says which texts are components, and nothing stops the
    parser, whatever it is given. -/
theorem reading_is_never_stopped (cs : List Char) (text : String) :
    (∀ k : Cursor, k.Reached (ofChars cs) → (∃ accepted, k = .done accepted) ∨
      ∃ k', k.step (ofChars cs) = .ok k' ∧ k'.left (ofChars cs).length < k.left (ofChars cs).length) ∧
    (∀ start i, Cursor.Reached (ofChars cs) (.inside start i) → (∀ x ∈ (ofChars cs)[i]?, isWordByte x = true) →
      ∃ front sep tail, cs = front ++ (sep ++ tail) ∧ start = (ofChars front).length ∧ i = (ofChars (front ++ sep)).length ∧
        (ofChars cs).piece start i = .ok (ofChars sep)) ∧
    (∃ accepted, Cursor.run (ofChars cs) (3 * (ofChars cs).length + 2) (.between 0) = .ok accepted) ∧
    (∃ accepted, scanComponent (ofChars cs) = .ok accepted ∧ (accepted = true ↔ Component cs)) ∧
    ∀ shown fault, parse text ≠ .error (.stopped shown fault) := by
  refine ⟨fun k hk => ?_, fun start i hreached hword => ?_, ?_, scanComponent_ofChars cs, fun shown fault => ?_⟩
  · obtain ⟨asked, hstands⟩ := hk.stands
    rcases hstands.advances with ⟨accepted, rfl, -⟩ | ⟨k', -, hstep, -, hless, -⟩
    · exact Or.inl ⟨accepted, rfl⟩
    · exact Or.inr ⟨k', hstep, hless⟩
  · obtain ⟨asked, hstands⟩ := hreached.stands
    exact hstands.cut hword
  · obtain ⟨accepted, hrun, -⟩ := (Stands.start cs).ends (Nat.le_refl _)
    exact ⟨accepted, hrun⟩
  · unfold parse
    split
    · simp
    · dsimp only
      split
      · next hcheck =>
        obtain ⟨found, hfound⟩ := exists_check (splitTag (splitDigest text.toList).1).1
          (splitTag (splitDigest text.toList).1).2 (splitDigest text.toList).2
        cases hcheck.symm.trans hfound
      · simp
      · simp

end Depot.Reference
