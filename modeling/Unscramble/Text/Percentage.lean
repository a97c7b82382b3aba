/-! A quotient of two sizes as a percentage with two decimal places. The quotient and its product
with a hundred are each rounded to 53 binary digits first, as binary64 arithmetic does. -/
namespace Unscramble.Text

/-- The whole number nearest to a quotient; a tie goes to the even one. -/
def roundQuotient (num den : Nat) : Nat :=
  let q := num / den
  let r := num % den
  if den < 2 * r ∨ (2 * r = den ∧ q % 2 = 1) then q + 1 else q

/-- A fraction that is nearest to `num / den` among those with 53 binary digits. -/
def roundBinary (num den : Nat) : Nat × Nat :=
  if num = 0 then (0, 1)
  else
    let up := den.log2 + 54
    let unit := Nat.pow 2 ((num * Nat.pow 2 up / den).log2 - 52)
    (roundQuotient (num * Nat.pow 2 up) (den * unit) * unit, Nat.pow 2 up)

def hundredths (n : Nat) : String :=
  toString (n / 100) ++ "." ++ (if n % 100 < 10 then "0" else "") ++ toString (n % 100)

/-- The size of a part, in percent of the whole; without a whole it is a hundred percent. -/
def percentage (whole part : Nat) : String :=
  if whole = 0 then "100.00"
  else
    let (a, b) := roundBinary part 1
    let (c, d) := roundBinary whole 1
    let (num, den) := roundBinary (a * d) (b * c)
    let (num, den) := roundBinary (num * 100) den
    hundredths (roundQuotient (num * 100) den)

end Unscramble.Text
