import Depot.Json.Parser
import Depot.Json.Printer

/-! String literals and numbers are read as they were written, whatever follows them; only a digit, a point or an
    exponent behind a number would be taken for a part of it. -/

namespace Depot.Json

/-! ### String literals -/

theorem hexValue?_hexDigit {n : Nat} (h : n < 16) : hexValue? (some (hexDigit n)) = some n := by
  have all : ∀ n < 16, hexValue? (some (hexDigit n)) = some n := by decide
  exact all n h

/-- The pieces that a character is read as. -/
def pieceOf (c : Char) : Piece :=
  if c = '"' ∨ c = '\\' ∨ c = '\n' ∨ c = '\r' ∨ c = '\t' ∨ c = Char.ofNat 8 ∨ c = Char.ofNat 12 then .char c
  else if c.toNat < 0x20 then .unit c.toNat
  else .char c

theorem pieces_shortEscape {e c : Char} (h : shortEscape? e = some c) (rest : List Symbol) :
    pieces (some '\\' :: some e :: rest) = (pieces rest).map fun p => (.char c :: p.1, p.2) := by
  have hu : e ≠ 'u' := by
    rintro rfl
    cases h
  rw [pieces, h]
  · cases pieces rest <;> rfl
  · exact fun _ _ _ _ _ _ => hu

theorem pieces_escapeChar (c : Char) (rest : List Symbol) :
    pieces ((escapeChar c).map some ++ rest) = (pieces rest).map fun p => (pieceOf c :: p.1, p.2) := by
  unfold pieceOf
  split
  · next hshort =>
    rcases hshort with rfl | rfl | rfl | rfl | rfl | rfl | rfl
    all_goals exact pieces_shortEscape rfl rest
  next hlong =>
  simp only [not_or] at hlong
  obtain ⟨hquote, hslash, hn, hr, ht, hb, hf⟩ := hlong
  unfold escapeChar
  rw [if_neg hquote, if_neg hslash, if_neg hn, if_neg hr, if_neg ht, if_neg hb, if_neg hf]
  split
  · next hcontrol =>
    have high := hexValue?_hexDigit (n := c.toNat / 16) (by omega)
    have low := hexValue?_hexDigit (n := c.toNat % 16) (by omega)
    have zero : hexValue? (some '0') = some 0 := by decide
    have code : ((0 * 16 + 0) * 16 + c.toNat / 16) * 16 + c.toNat % 16 = c.toNat := by omega
    show pieces (some '\\' :: some 'u' :: some '0' :: some '0' :: some _ :: some _ :: rest) = _
    rw [pieces]
    simp only [zero, high, low, Option.bind_eq_bind, Option.bind_some, code]
    cases pieces rest <;> rfl
  · next hcontrol =>
    show pieces (some c :: rest) = _
    rw [pieces, if_neg (by simp [hslash, hcontrol])]
    · exact hquote
    · exact fun _ _ _ _ _ _ => hslash
    · exact fun _ _ _ => hslash

theorem decode_pieceOf (c : Char) (ps : List Piece) : decode (pieceOf c :: ps) = (decode ps).map (c :: ·) := by
  unfold pieceOf
  split
  · rw [decode]
  split
  · next hcontrol =>
    have hlow : ¬(0xd800 ≤ c.toNat ∧ c.toNat ≤ 0xdfff) := by omega
    have hhigh : ¬(0xd800 ≤ c.toNat ∧ c.toNat ≤ 0xdbff) := by omega
    have hsecond : ¬(0xdc00 ≤ c.toNat ∧ c.toNat ≤ 0xdfff) := by omega
    cases ps with
    | nil => rw [decode.eq_def]; simp [hlow, Char.ofNat_toNat]
    | cons p ps => cases p <;> rw [decode.eq_def] <;> simp [hlow, hhigh, hsecond, Char.ofNat_toNat]
  · rw [decode]

theorem pieces_escape (cs : List Char) (rest : List Symbol) :
    pieces ((cs.flatMap escapeChar).map some ++ some '"' :: rest) = some (cs.map pieceOf, rest) := by
  induction cs with
  | nil => rfl
  | cons c cs ih =>
    rw [List.flatMap_cons, List.map_append, List.append_assoc, pieces_escapeChar, ih]
    rfl

theorem decode_pieceOf_map (cs : List Char) : decode (cs.map pieceOf) = some cs := by
  induction cs with
  | nil => rfl
  | cons c cs ih => rw [List.map_cons, decode_pieceOf, ih, Option.map_some]

theorem literal_renderText (t : Option String) (rest : List Symbol) :
    literal (((renderText t).tail).map some ++ rest) = some (t, rest) := by
  unfold literal
  cases t with
  | none => rfl
  | some s =>
    show (pieces ((s.toList.flatMap escapeChar ++ ['"']).map some ++ rest)).map _ = _
    rw [List.map_append, List.append_assoc]
    show (pieces ((s.toList.flatMap escapeChar).map some ++ some '"' :: rest)).map _ = _
    rw [pieces_escape, Option.map_some, decode_pieceOf_map, Option.map_some, String.ofList_toList]

theorem length_escapeChar_le (c : Char) : (escapeChar c).length ≤ 6 := by
  unfold escapeChar
  repeat' split
  all_goals simp

theorem length_renderText_le (s : String) : (renderText (some s)).length ≤ 6 * s.toList.length + 2 := by
  show ('"' :: s.toList.flatMap escapeChar ++ ['"']).length ≤ _
  rw [List.length_append, List.length_cons, List.length_singleton]
  suffices h : (s.toList.flatMap escapeChar).length ≤ 6 * s.toList.length by omega
  induction s.toList with
  | nil => simp
  | cons c cs ih =>
    have hc := length_escapeChar_le c
    rw [List.flatMap_cons, List.length_append, List.length_cons]
    omega

/-! ### Numbers -/

/-- What may follow a number without being taken for a part of it. -/
def EndsNumber (rest : List Symbol) : Prop :=
  ∀ c ∈ rest.head?, digit? c = none ∧ c ≠ some '.' ∧ c ≠ some 'e' ∧ c ≠ some 'E'

theorem digit?_of_isDigit {c : Char} (h : c.isDigit = true) : digit? (some c) = some (c.toNat - '0'.toNat) := by
  simp only [Char.isDigit, Bool.and_eq_true, decide_eq_true_eq] at h
  exact if_pos h

theorem digits_append {cs : List Char} {rest : List Symbol} (h : ∀ c ∈ cs, c.isDigit = true)
    (hrest : EndsNumber rest) : digits (cs.map some ++ rest) = (cs.map fun c => c.toNat - '0'.toNat, rest) := by
  induction cs with
  | nil =>
    cases rest with
    | nil => rfl
    | cons c rest =>
      show digits (c :: rest) = _
      rw [digits, (hrest c rfl).1]
      rfl
  | cons c cs ih =>
    show digits (some c :: (cs.map some ++ rest)) = _
    rw [digits, digit?_of_isDigit (h c (by simp))]
    simp [ih fun c hc => h c (by simp [hc])]

theorem ofDigits_toDigits (n : Nat) :
    ofDigits ((Nat.toDigits 10 n).map fun c => c.toNat - '0'.toNat) = n := by
  have h := Nat.ofDigitChars_ten_toDigits (n := n)
  rw [Nat.ofDigitChars_eq_foldl] at h
  rw [ofDigits, List.foldl_map]
  simpa only [Nat.mul_comm 10] using h

theorem toDigits_head {n : Nat} (h : n ≠ 0) : (Nat.toDigits 10 n).head? ≠ some '0' := by
  induction n using Nat.strongRecOn with
  | _ n ih =>
    rw [Nat.toDigits_eq_if (by decide)]
    split
    · simpa using h
    · next hn =>
      have hhead := ih (n / 10) (by omega) (by omega)
      cases hcs : Nat.toDigits 10 (n / 10) with
      | nil => exact absurd hcs Nat.toDigits_ne_nil
      | cons c cs => rwa [hcs] at hhead

theorem whole_toDigits (n : Nat) {rest : List Symbol} (hrest : EndsNumber rest) :
    whole ((Nat.toDigits 10 n).map some ++ rest) = some (n, rest) := by
  by_cases hn : n = 0
  · subst hn
    rfl
  · have hhead := toDigits_head hn
    have hdigits := digits_append
      (fun c hc => Nat.isDigit_of_mem_toDigits (b := 10) (n := n) (by decide) (by decide) hc) hrest
    have hvalue := ofDigits_toDigits n
    cases hcs : Nat.toDigits 10 n with
    | nil => exact absurd hcs Nat.toDigits_ne_nil
    | cons c cs =>
      rw [hcs] at hhead hdigits hvalue
      have hc : c ≠ '0' := by simpa using hhead
      rw [whole.eq_def]
      split
      · next heq => exact absurd (Option.some.inj (List.cons.inj heq).1) hc
      · rw [hdigits, List.map_cons]
        rw [List.map_cons] at hvalue
        simp only [hvalue]

theorem unsigned_toDigits (negative : Bool) (n : Nat) {rest : List Symbol} (hrest : EndsNumber rest) :
    unsigned negative ((Nat.toDigits 10 n).map some ++ rest) =
      some (if negative && n == 0 then .fractional else .integer (if negative then -(n : Int) else n), rest) := by
  have hfraction : fraction rest = some (false, rest) := by
    rw [fraction.eq_def]
    split
    · exact absurd rfl (hrest _ rfl).2.1
    · rfl
  have hexponent : exponent rest = some (false, rest) := by
    rw [exponent.eq_def]
    split
    · exact absurd rfl (hrest _ rfl).2.2.1
    · exact absurd rfl (hrest _ rfl).2.2.2
    · rfl
  unfold unsigned
  simp only [whole_toDigits n hrest, hfraction, hexponent, Option.bind_eq_bind, Option.bind_some, Bool.false_or]
  split <;> rfl

theorem number_renderInteger (n : Int) {rest : List Symbol} (hrest : EndsNumber rest) :
    number ((renderInteger n).map some ++ rest) = some (.integer n, rest) := by
  unfold renderInteger
  split
  · next hn =>
    show unsigned true ((Nat.toDigits 10 n.natAbs).map some ++ rest) = _
    rw [unsigned_toDigits true _ hrest, if_neg (by simp; omega), if_pos rfl]
    congr
    omega
  · next hn =>
    have hdigit : ∀ c ∈ Nat.toDigits 10 n.natAbs, c.isDigit = true :=
      fun c hc => Nat.isDigit_of_mem_toDigits (by decide) (by decide) hc
    rw [number.eq_def]
    split
    · next heq =>
      cases hcs : Nat.toDigits 10 n.natAbs with
      | nil => exact absurd hcs Nat.toDigits_ne_nil
      | cons c cs =>
        rw [hcs] at heq hdigit
        have := hdigit c (by simp)
        rw [Option.some.inj (List.cons.inj heq).1] at this
        exact absurd this (by decide)
    · rw [unsigned_toDigits false _ hrest, if_neg (by simp), if_neg (by decide)]
      congr
      omega

end Depot.Json
