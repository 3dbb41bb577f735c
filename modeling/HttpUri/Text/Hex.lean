import HttpUri.Text.Basic

/-! Hexadecimal digits. -/
namespace HttpUri.Text

/-- The value of a hexadecimal digit of either case. -/
def hexValue? (c : CodePoint) : Option Nat :=
  if '0' ≤ c ∧ c ≤ '9' then some (c.toNat - '0'.toNat)
  else if 'a' ≤ c ∧ c ≤ 'f' then some (c.toNat - 'a'.toNat + 10)
  else if 'A' ≤ c ∧ c ≤ 'F' then some (c.toNat - 'A'.toNat + 10)
  else none

def isHex (c : CodePoint) : Bool := (hexValue? c).isSome

/-- The digit of a value below sixteen, letters in small form. -/
def smallHexDigit (n : Nat) : CodePoint :=
  if n < 10 then CodePoint.ofNat ('0'.toNat + n) else CodePoint.ofNat ('a'.toNat + (n - 10))

def capitalHexDigit (n : Nat) : CodePoint :=
  if n < 10 then CodePoint.ofNat ('0'.toNat + n) else CodePoint.ofNat ('A'.toNat + (n - 10))

/-- The last `width` hexadecimal digits of a number. -/
def hexDigits : (width n : Nat) → Text
  | 0, _ => []
  | width + 1, n => hexDigits width (n / 16) ++ [smallHexDigit (n % 16)]

theorem hexValue?_capitalHexDigit : ∀ n < 16, hexValue? (capitalHexDigit n) = some n := by
  decide

end HttpUri.Text
