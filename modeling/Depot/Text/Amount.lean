/-!
Amounts in decimal. A quotient is rounded to the nearest number, and from the middle to the even
one.
-/
namespace Depot.Text

/-- The whole number nearest to `num / den`, the even one of two. -/
def roundDiv (num den : Nat) : Nat :=
  let q := num / den
  let r := num % den
  if 2 * r > den ∨ (2 * r = den ∧ q % 2 = 1) then q + 1 else q

/-- The binary digits that a floating-point number keeps. -/
def significantBits : Nat := 53

/-- The number with all but its leading binary digits rounded away. -/
def significant (n : Nat) : Nat :=
  let scale := Nat.pow 2 (n.log2 + 1 - significantBits)
  roundDiv n scale * scale

/-- The quotient with two decimal places. -/
def hundredths (num den : Nat) : String :=
  let n := roundDiv (num * 100) den
  toString (n / 100) ++ "." ++
    String.ofList [Nat.digitChar (n / 10 % 10), Nat.digitChar (n % 10)]

example : hundredths 1536 1024 = "1.50" := by decide +kernel

end Depot.Text
