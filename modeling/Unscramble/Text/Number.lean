/-! Reading whole numbers, and the range of 64-bit words. -/
namespace Unscramble.Text

def digitValue? (radix : Nat) (c : Char) : Option Nat :=
  let value :=
    if '0' ≤ c ∧ c ≤ '9' then some (c.toNat - '0'.toNat)
    else if 'a' ≤ c ∧ c ≤ 'z' then some (c.toNat - 'a'.toNat + 10)
    else if 'A' ≤ c ∧ c ≤ 'Z' then some (c.toNat - 'A'.toNat + 10)
    else none
  value.filter (· < radix)

/-- A number without sign, of at least one digit. -/
def natural? (radix : Nat) (digits : List Char) : Option Nat :=
  if digits.isEmpty then none
  else digits.foldlM (fun n c => (digitValue? radix c).map (n * radix + ·)) 0

/-- A number that may have one sign in front. -/
def integer? (radix : Nat) : List Char → Option Int
  | '+' :: digits => (natural? radix digits).map Int.ofNat
  | '-' :: digits => (natural? radix digits).map fun n => -Int.ofNat n
  | digits => (natural? radix digits).map Int.ofNat

/-- The word with a value, if the value is in range. -/
def word? (n : Int) : Option Int64 :=
  let word := Int64.ofInt n
  if word.toInt = n then some word else none

def integerWord? (radix : Nat) (s : List Char) : Option Int64 := (integer? radix s).bind word?

/-- A size: a number without a minus sign that fits in 64 bits. -/
def size? : List Char → Option Nat
  | '+' :: digits => (natural? 10 digits).filter (· < UInt64.size)
  | digits => (natural? 10 digits).filter (· < UInt64.size)

end Unscramble.Text
