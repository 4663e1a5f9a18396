import Depot.Json.Printer

/-! The compact layout keeps a document on its line. Strings escape control characters and nothing else in JSON has
    any, so whatever the document says, its text has no line end. -/

namespace Depot.Json

/-- There is no control character among these. -/
def Printable (cs : List Char) : Prop := ∀ c ∈ cs, 0x20 ≤ c.toNat

namespace Printable
variable {a b : List Char} {c : Char}

@[simp] theorem nil : Printable [] := by simp [Printable]

@[simp] theorem cons_iff : Printable (c :: a) ↔ 0x20 ≤ c.toNat ∧ Printable a := by simp [Printable]

@[simp] theorem append_iff : Printable (a ++ b) ↔ Printable a ∧ Printable b := by
  simp [Printable, or_imp, forall_and]

theorem notMem (h : Printable a) (hc : c.toNat < 0x20) : c ∉ a := fun hmem => absurd (h c hmem) (Nat.not_le.mpr hc)

end Printable

/-! ### Tokens -/

theorem printable_hexDigit {n : Nat} (h : n < 16) : 0x20 ≤ (hexDigit n).toNat := by
  have all : ∀ n < 16, 0x20 ≤ (hexDigit n).toNat := by decide
  exact all n h

theorem printable_escapeChar (c : Char) : Printable (escapeChar c) := by
  unfold escapeChar
  -- the seven characters with an escape of their own
  iterate 7
    split
    · simp
  split
  · next hc =>
    have hhigh := printable_hexDigit (n := c.toNat / 16) (by omega)
    have hlow := printable_hexDigit (n := c.toNat % 16) (by omega)
    simp [hhigh, hlow]
  · next hc => simpa using Nat.not_lt.mp hc

theorem printable_renderText (t : Option String) : Printable (renderText t) := by
  cases t with
  | none => simp [renderText]
  | some s =>
    have hescaped : Printable (s.toList.flatMap escapeChar) := by
      intro c hc
      obtain ⟨e, -, hmem⟩ := List.mem_flatMap.mp hc
      exact printable_escapeChar e c hmem
    simp [renderText, hescaped]

theorem printable_renderInteger (n : Int) : Printable (renderInteger n) := by
  have hdigits (k : Nat) : Printable (Nat.toDigits 10 k) := by
    intro c hc
    have := Nat.isDigit_of_mem_toDigits (by decide) (by decide) hc
    rw [Char.isDigit, Bool.and_eq_true, decide_eq_true_iff, decide_eq_true_iff] at this
    exact Nat.le_trans (by decide) this.1
  unfold renderInteger
  split
  · exact Printable.cons_iff.mpr ⟨by decide, hdigits _⟩
  · exact hdigits _

/-! ### Documents -/

@[simp] theorem lineBreak_compact (depth : Nat) : Layout.compact.lineBreak depth = [] := rfl

@[simp] theorem colon_compact : Layout.compact.colon = [':'] := rfl

mutual

theorem printable_renderAt : ∀ (j : Json) (depth : Nat), Printable (renderAt .compact depth j)
  | .null, _ => by simp [renderAt]
  | .bool true, _ => by simp [renderAt]
  | .bool false, _ => by simp [renderAt]
  | .integer n, _ => printable_renderInteger n
  | .fractional, _ => by simp [renderAt]
  | .string t, _ => printable_renderText t
  | .array [], _ => by simp [renderAt]
  | .array (x :: xs), depth => by
    have hx := printable_renderAt x (depth + 1)
    have hxs := printable_renderItems xs (depth + 1)
    simp [renderAt, hx, hxs]
  | .object [], _ => by simp [renderAt]
  | .object ((k, v) :: ms), depth => by
    have hk := printable_renderText k
    have hv := printable_renderAt v (depth + 1)
    have hms := printable_renderMembers ms (depth + 1)
    simp [renderAt, hk, hv, hms]

theorem printable_renderItems : ∀ (xs : List Json) (depth : Nat), Printable (renderItems .compact depth xs)
  | [], _ => by simp [renderItems]
  | x :: xs, depth => by
    have hx := printable_renderAt x depth
    have hxs := printable_renderItems xs depth
    simp [renderItems, hx, hxs]

theorem printable_renderMembers : ∀ (ms : List (Option String × Json)) (depth : Nat),
    Printable (renderMembers .compact depth ms)
  | [], _ => by simp [renderMembers]
  | (k, v) :: ms, depth => by
    have hk := printable_renderText k
    have hv := printable_renderAt v depth
    have hms := printable_renderMembers ms depth
    simp [renderMembers, hk, hv, hms]

end

/-- A document on one line is on one line. -/
theorem newline_notMem_compact (j : Json) : '\n' ∉ j.compact.toList := by
  rw [compact, String.toList_ofList]
  exact (printable_renderAt j 0).notMem (by decide)

end Depot.Json
