import HttpUri.Text.Basic

/-! Decimal numerals of whole numbers. -/
namespace HttpUri.Numeral

def ofNat (n : Nat) : Text := (Nat.toDigits 10 n).map .char

/-- The numeral of a whole number, a minus sign in front of a negative one. -/
def ofInt : Int → Text
  | .ofNat n => ofNat n
  | .negSucc n => .char '-' :: ofNat (n + 1)

/-- The number that a run of digits denotes. -/
def value (s : Text) : Nat := s.foldl (fun n c => 10 * n + (c.toNat - '0'.toNat)) 0

def isDigits (s : Text) : Bool := s.all CodePoint.isDigit

/-- The longest numeral that is read. -/
def digitLimit : Nat := 4300

theorem value_map_char (s : List Char) : value (s.map .char) = Nat.ofDigitChars 10 s 0 :=
  List.foldl_map

@[simp] theorem value_ofNat (n : Nat) : value (ofNat n) = n := by
  rw [ofNat, value_map_char]
  exact Nat.ofDigitChars_toDigits (by decide) (by decide)

@[simp] theorem ofNat_ne_nil (n : Nat) : ofNat n ≠ [] := by
  rw [ofNat, ne_eq, List.map_eq_nil_iff]
  exact Nat.toDigits_ne_nil

@[simp] theorem isDigits_ofNat (n : Nat) : isDigits (ofNat n) = true := by
  simp only [isDigits, List.all_eq_true, ofNat, List.forall_mem_map]
  exact fun c hc => Nat.isDigit_of_mem_toDigits (by decide) (by decide) hc

end HttpUri.Numeral
