import Depot.Time.Rfc3339
import Mathlib.Algebra.GroupWithZero.Nat

/-! An instant is read as it was written, in either spelling of the zone: every field has as many digits as the
    reader takes at most, or ends before something that is no digit. -/

namespace Depot.Instant

/-! ### Digits -/

/-- Characters that are all digits. -/
def Digits (ds : List Char) : Prop := ∀ c ∈ ds, c.isDigit = true

theorem digit?_of_isDigit {c : Char} (h : c.isDigit = true) : digit? c = some (c.toNat - '0'.toNat) := by
  simp only [Char.isDigit, Bool.and_eq_true, decide_eq_true_eq] at h
  exact if_pos h

theorem not_isBlank_of_isDigit {c : Char} (h : c.isDigit = true) : Text.isBlank c = false := by
  have h' : 48 ≤ c.toNat ∧ c.toNat ≤ 57 := by
    simp only [Char.isDigit, Bool.and_eq_true, decide_eq_true_eq] at h
    exact h
  unfold Text.isBlank
  simp only [Bool.or_eq_false_iff, Bool.and_eq_false_iff, decide_eq_false_iff_not, beq_eq_false_iff_ne]
  omega

theorem trimStart_cons {c : Char} (h : Text.isBlank c = false) (rest : List Char) :
    Text.trimStart (c :: rest) = c :: rest :=
  List.dropWhile_cons_of_neg (by simp [h])

/-- A number stops where no digit follows, or at the limit. -/
theorem leading_append {ds : List Char} (hds : Digits ds) (limit value count : Nat) (rest : List Char)
    (hlimit : ds.length ≤ limit) (hrest : ds.length = limit ∨ ∀ c ∈ rest.head?, digit? c = none) :
    leading limit value count (ds ++ rest) = (Nat.ofDigitChars 10 ds value, count + ds.length, rest) := by
  induction ds generalizing limit value count with
  | nil =>
    cases limit with
    | zero => rfl
    | succ limit =>
      have hrest := hrest.resolve_left (by simp)
      cases rest with
      | nil => rfl
      | cons c rest =>
        show leading (limit + 1) value count (c :: rest) = _
        rw [leading, hrest c rfl]
        rfl
  | cons d ds ih =>
    obtain ⟨limit, rfl⟩ : ∃ m, limit = m + 1 := ⟨limit - 1, by simp at hlimit; omega⟩
    show leading (limit + 1) value count (d :: (ds ++ rest)) = _
    rw [leading, digit?_of_isDigit (hds d (by simp))]
    dsimp only
    rw [ih (fun c hc => hds c (by simp [hc])) _ _ _ (by simpa using hlimit) (by simpa using hrest),
      Nat.ofDigitChars_cons, Nat.mul_comm]
    simp only [List.length_cons, Nat.add_assoc, Nat.add_comm 1]

theorem number?_append {ds : List Char} (hds : Digits ds) (hne : ds ≠ []) {limit : Nat} {rest : List Char}
    (hlimit : ds.length ≤ limit) (hrest : ds.length = limit ∨ ∀ c ∈ rest.head?, digit? c = none) :
    number? limit (ds ++ rest) = some (Nat.ofDigitChars 10 ds 0, rest) := by
  have hpos : 0 < ds.length := List.length_pos_iff.mpr hne
  unfold number?
  rw [leading_append hds limit 0 0 rest hlimit hrest]
  split
  · next heq => simp only [Prod.mk.injEq] at heq; omega
  · next heq => simp only [Prod.mk.injEq] at heq; rw [heq.1, heq.2.2]

/-! ### Fields -/

theorem length_padded (width n : Nat) : (padded width n).length = width := by
  induction width generalizing n with
  | zero => rfl
  | succ width ih => simp [padded, ih]

theorem digits_padded (width n : Nat) : Digits (padded width n) := by
  induction width generalizing n with
  | zero => simp [padded, Digits]
  | succ width ih =>
    intro c hc
    rcases List.mem_append.mp hc with hc | hc
    · exact ih _ c hc
    · rw [List.mem_singleton.mp hc, Nat.isDigit_digitChar]
      exact decide_eq_true (by omega)

theorem ofDigitChars_padded (width n : Nat) : Nat.ofDigitChars 10 (padded width n) 0 = n % 10 ^ width := by
  induction width generalizing n with
  | zero => simp [padded, Nat.mod_one]
  | succ width ih =>
    rw [padded, Nat.ofDigitChars_append, ih, Nat.ofDigitChars_cons_digitChar_of_lt_ten (by omega), Nat.ofDigitChars_nil,
      Nat.pow_succ, Nat.mul_comm (10 ^ width), Nat.mod_mul]
    omega

theorem padded_ne_nil {width : Nat} (h : 0 < width) (n : Nat) : padded width n ≠ [] := by
  rw [← List.length_pos_iff, length_padded]
  exact h

theorem trimStart_digits {ds : List Char} (hds : Digits ds) (hne : ds ≠ []) (rest : List Char) :
    Text.trimStart (ds ++ rest) = ds ++ rest := by
  cases ds with
  | nil => exact absurd rfl hne
  | cons d ds => exact trimStart_cons (not_isBlank_of_isDigit (hds d (by simp))) _

theorem field?_padded {n : Nat} (h : n < 100) (rest : List Char) : field? (padded 2 n ++ rest) = some (n, rest) := by
  unfold field?
  rw [trimStart_digits (digits_padded 2 n) (padded_ne_nil (by decide) n),
    number?_append (digits_padded 2 n) (padded_ne_nil (by decide) n) (Nat.le_of_eq (length_padded 2 n))
      (Or.inl (length_padded 2 n)), ofDigitChars_padded,
    Nat.mod_eq_of_lt (show n < 10 ^ 2 from h)]

theorem mark?_cons {c : Char} (h : Text.isBlank c = false) (rest : List Char) : mark? c (c :: rest) = some rest := by
  unfold mark?
  rw [trimStart_cons h]
  simp

/-! ### Years -/

theorem digits_toDigits (n : Nat) : Digits (Nat.toDigits 10 n) :=
  fun _ hc => Nat.isDigit_of_mem_toDigits (by decide) (by decide) hc

theorem digits_signed (n k : Nat) : Digits (List.replicate k '0' ++ Nat.toDigits 10 n) := by
  intro c hc
  rcases List.mem_append.mp hc with hc | hc
  · rw [List.eq_of_mem_replicate hc]
    rfl
  · exact digits_toDigits n c hc

theorem number?_signed (n k : Nat) (rest : List Char) :
    number? (List.replicate k '0' ++ Nat.toDigits 10 n ++ '-' :: rest).length
      (List.replicate k '0' ++ Nat.toDigits 10 n ++ '-' :: rest) = some (n, '-' :: rest) := by
  rw [number?_append (digits_signed n k) (by simp) (by simp)
    (Or.inr (by rintro _ ⟨⟩; decide)), Nat.ofDigitChars_append, Nat.ofDigitChars_replicate_zero, Nat.mul_zero,
    Nat.ofDigitChars_ten_toDigits]

theorem year?_yearText (y : Int) (rest : List Char) :
    year? (yearText y ++ '-' :: rest) = some (y, '-' :: rest) := by
  unfold yearText
  split
  · next h =>
    have hne := padded_ne_nil (show 0 < 4 by decide) y.toNat
    have hdigits := digits_padded 4 y.toNat
    have hnumber : number? 4 (padded 4 y.toNat ++ '-' :: rest) = some (y.toNat, '-' :: rest) := by
      rw [number?_append hdigits hne (Nat.le_of_eq (length_padded 4 y.toNat)) (Or.inl (length_padded 4 y.toNat)),
        ofDigitChars_padded, Nat.mod_eq_of_lt (by omega)]
    have hvalue : (y.toNat : Int) = y := by omega
    unfold year?
    rw [trimStart_digits hdigits hne]
    cases hcs : padded 4 y.toNat with
    | nil => exact absurd hcs hne
    | cons d ds =>
      -- A digit is neither sign.
      have hd : d.isDigit = true := hdigits d (by simp [hcs])
      rw [hcs] at hnumber
      split
      · next heq =>
        rw [(List.cons.inj heq).1] at hd
        exact absurd hd (by decide)
      · next heq =>
        rw [(List.cons.inj heq).1] at hd
        exact absurd hd (by decide)
      · rw [hnumber, Option.map_some, hvalue]
  · next h =>
    have hsigned := number?_signed y.natAbs (4 - (Nat.toDigits 10 y.natAbs).length) rest
    dsimp only
    by_cases hneg : y < 0
    · have hvalue : -(y.natAbs : Int) = y := by omega
      rw [if_pos hneg, List.cons_append]
      unfold year?
      rw [trimStart_cons (by decide)]
      show (number? _ _).map (fun p => (-(p.1 : Int), p.2)) = _
      rw [hsigned, Option.map_some, hvalue]
    · have hvalue : (y.natAbs : Int) = y := by omega
      rw [if_neg hneg, List.cons_append]
      unfold year?
      rw [trimStart_cons (by decide)]
      show (number? _ _).map (fun p => ((p.1 : Int), p.2)) = _
      rw [hsigned, Option.map_some, hvalue]

/-! ### Fractions and zones -/

/-- What may follow a fraction without being taken for a part of it. -/
def EndsFraction (rest : List Char) : Prop := ∀ c ∈ rest.head?, digit? c = none ∧ c ≠ '.'

theorem dropWhile_endsFraction {rest : List Char} (h : EndsFraction rest) :
    rest.dropWhile (fun c => (digit? c).isSome) = rest := by
  cases rest with
  | nil => rfl
  | cons c rest => exact List.dropWhile_cons_of_neg (by simp [(h c rfl).1])

theorem fraction?_dot (cs : List Char) : fraction? ('.' :: cs) = match leading 9 0 0 cs with
    | (_, 0, _) => none
    | (value, count, rest) => some (value * Nat.pow 10 (9 - count), rest.dropWhile fun c => (digit? c).isSome) := rfl

theorem fraction?_padded {width n : Nat} (hwidth : 0 < width) (hle : width ≤ 9) (hn : n < 10 ^ width) {rest : List Char}
    (hrest : EndsFraction rest) :
    fraction? ('.' :: padded width n ++ rest) = some (n * 10 ^ (9 - width), rest) := by
  have hleading := leading_append (digits_padded width n) 9 0 0 rest (by rw [length_padded]; exact hle)
    (Or.inr fun c hc => (hrest c hc).1)
  rw [List.cons_append, fraction?_dot, hleading, ofDigitChars_padded, length_padded, Nat.mod_eq_of_lt hn, Nat.zero_add]
  split
  · next heq => simp only [Prod.mk.injEq] at heq; omega
  · next heq =>
    simp only [Prod.mk.injEq] at heq
    obtain ⟨rfl, rfl, rfl⟩ := heq
    rw [dropWhile_endsFraction hrest, Nat.pow_eq]

theorem fraction?_fractionText {nano : Nat} (h : nano < 1000000000) {rest : List Char} (hrest : EndsFraction rest) :
    fraction? (fractionText nano ++ rest) = some (nano, rest) := by
  unfold fractionText
  split
  · next hzero =>
    rw [hzero, List.nil_append]
    cases rest with
    | nil => rfl
    | cons c rest =>
      rw [fraction?.eq_def]
      split
      · next heq => exact absurd (List.cons.inj heq).1 (hrest c rfl).2
      · rfl
  split
  · rw [fraction?_padded (by decide) (by decide) (by omega) hrest, show nano / 1000000 * 10 ^ (9 - 3) = nano by omega]
  split
  · rw [fraction?_padded (by decide) (by decide) (by omega) hrest, show nano / 1000 * 10 ^ (9 - 6) = nano by omega]
  · rw [fraction?_padded (by decide) (by decide) h hrest, Nat.sub_self, Nat.pow_zero, Nat.mul_one]

/-- A spelling of the zone without an offset. -/
structure IsUniversal (zone : List Char) : Prop where
  ends : EndsFraction zone
  trimmed : Text.trimStart zone = zone
  reads : zone? zone = some (0, [])

theorem isUniversal_z : IsUniversal ['Z'] := ⟨by rintro _ ⟨⟩; decide, by decide, by decide⟩

/-! ### Instants -/

theorem of?_self (t : Instant) : of? t.date t.hour t.minute t.second t.nano = some t := dif_pos t.inDay

theorem shift?_zero (t : Instant) : t.shift? 0 = some t := by
  obtain ⟨hhour, hminute, -, -⟩ := t.inDay
  have hlow : ¬((t.hour : Int) * 60 + t.minute + 0 < 0) := by omega
  have hhigh : (t.hour : Int) * 60 + t.minute + 0 < 1440 := by omega
  have htotal : (((t.hour : Int) * 60 + t.minute + 0) % 1440).toNat = t.hour * 60 + t.minute := by omega
  have hdiv : (t.hour * 60 + t.minute) / 60 = t.hour := by omega
  have hmod : (t.hour * 60 + t.minute) % 60 = t.minute := by omega
  unfold shift?
  dsimp only
  rw [if_neg hlow, if_pos hhigh, Option.bind_some, htotal, hdiv, hmod, of?_self]

theorem date_of? (d : Date) : Date.of? d.year d.month d.day = some d := dif_pos d.isDate

theorem day_lt (d : Date) : d.day < 100 := by
  obtain ⟨-, -, -, hday⟩ := d.isDate
  have : daysInMonth d.year d.month ≤ 31 := by
    unfold daysInMonth
    split
    · split <;> omega
    · split <;> omega
  omega

/-- The second and the fraction that are written denote the second and the nanoseconds. -/
theorem leapSecond_written (t : Instant) :
    leapSecond (t.second + t.nano / 1000000000) (t.nano % 1000000000) = (t.second, t.nano) := by
  obtain ⟨-, -, hsecond, hnano⟩ := t.inDay
  unfold leapSecond
  split
  · rw [Prod.mk.injEq]
    omega
  · rw [Prod.mk.injEq]
    omega

theorem parse?_stamp (t : Instant) {zone : List Char} (hzone : IsUniversal zone) :
    parse? (String.ofList (t.stamp ++ zone)) = some t := by
  obtain ⟨hhour, hminute, hsecond, hnano⟩ := t.inDay
  have hmonth : t.date.month < 100 := by
    have := t.date.isDate.2.1.2
    omega
  have hwritten : t.second + t.nano / 1000000000 < 100 := by omega
  have hstamp : t.stamp ++ zone = yearText t.date.year ++ '-' :: (padded 2 t.date.month ++ '-' :: (padded 2 t.date.day ++
      'T' :: (padded 2 t.hour ++ ':' :: (padded 2 t.minute ++ ':' :: (padded 2 (t.second + t.nano / 1000000000) ++
        (fractionText (t.nano % 1000000000) ++ zone)))))) := by simp [stamp]
  have hdash (rest : List Char) : mark? '-' ('-' :: rest) = some rest := mark?_cons (by decide) rest
  have hcolon (rest : List Char) : mark? ':' (':' :: rest) = some rest := mark?_cons (by decide) rest
  unfold parse?
  rw [String.toList_ofList, hstamp]
  refine Option.bind_eq_some_iff.mpr ⟨_, year?_yearText _ _, ?_⟩
  refine Option.bind_eq_some_iff.mpr ⟨_, hdash _, ?_⟩
  refine Option.bind_eq_some_iff.mpr ⟨_, field?_padded hmonth _, ?_⟩
  refine Option.bind_eq_some_iff.mpr ⟨_, hdash _, ?_⟩
  refine Option.bind_eq_some_iff.mpr ⟨_, field?_padded (day_lt _) _, ?_⟩
  refine Option.bind_eq_some_iff.mpr ⟨_, date_of? _, ?_⟩
  -- the letter between date and time
  refine Option.bind_eq_some_iff.mpr ⟨_, rfl, ?_⟩
  refine Option.bind_eq_some_iff.mpr ⟨_, field?_padded (show t.hour < 100 by omega) _, ?_⟩
  refine Option.bind_eq_some_iff.mpr ⟨_, hcolon _, ?_⟩
  refine Option.bind_eq_some_iff.mpr ⟨_, field?_padded (show t.minute < 100 by omega) _, ?_⟩
  refine Option.bind_eq_some_iff.mpr ⟨_, hcolon _, ?_⟩
  refine Option.bind_eq_some_iff.mpr ⟨_, field?_padded hwritten _, ?_⟩
  refine Option.bind_eq_some_iff.mpr ⟨_, fraction?_fractionText (by omega) hzone.ends, ?_⟩
  dsimp only
  rw [hzone.trimmed]
  refine Option.bind_eq_some_iff.mpr ⟨_, hzone.reads, ?_⟩
  dsimp only
  rw [leapSecond_written]
  refine Option.bind_eq_some_iff.mpr ⟨_, of?_self t, ?_⟩
  exact shift?_zero t

theorem parse?_render (t : Instant) : parse? t.render = some t := parse?_stamp t isUniversal_z

end Depot.Instant
