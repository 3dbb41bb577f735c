import HttpUri.Number.Numeral
import Mathlib.Data.Nat.Digits.Defs

/-! How many digits a numeral has, and how large a number they denote. -/
namespace HttpUri.Numeral

theorem length_ofNat_le {n k : Nat} (hk : 0 < k) (h : n < 10 ^ k) : (ofNat n).length ≤ k := by
  rw [ofNat, List.length_map]
  exact Nat.toDigits_length 10 n k hk h

theorem length_ofInt_le {n : Int} (hn : 0 ≤ n) (h : n < 10 ^ digitLimit) :
    (ofInt n).length ≤ digitLimit := by
  obtain ⟨k, rfl⟩ := Int.eq_ofNat_of_zero_le hn
  exact length_ofNat_le (by decide) (by exact_mod_cast h)

theorem lt_limit_of_neg {n : Int} (h : n < 0) : n < 10 ^ digitLimit :=
  Int.lt_trans h (by positivity)

theorem foldl_eq_value (n : Nat) (s : Text) :
    s.foldl (fun n c => 10 * n + (c.toNat - '0'.toNat)) n = 10 ^ s.length * n + value s := by
  induction s generalizing n with
  | nil => simp [value]
  | cons c rest ih =>
    rw [value, List.foldl_cons, List.foldl_cons, ih, ih, List.length_cons, Nat.pow_succ]
    ring

theorem value_lt {s : Text} (h : isDigits s = true) : value s < 10 ^ s.length := by
  induction s with
  | nil => decide
  | cons c rest ih =>
    obtain ⟨hc, hrest⟩ := Bool.and_eq_true_iff.1 h
    have htail : value rest < 10 ^ rest.length := ih hrest
    have hdigit : c.toNat - '0'.toNat ≤ 9 := by
      have hle : c.toNat ≤ '9'.toNat := (CodePoint.isDigit_iff.1 hc).2
      have hnine : '9'.toNat = '0'.toNat + 9 := rfl
      omega
    have hsplit : value (c :: rest) = 10 ^ rest.length * (c.toNat - '0'.toNat) + value rest := by
      rw [value, List.foldl_cons, Nat.mul_zero, Nat.zero_add, foldl_eq_value]
    calc value (c :: rest)
        = 10 ^ rest.length * (c.toNat - '0'.toNat) + value rest := hsplit
      _ ≤ 10 ^ rest.length * 9 + value rest := Nat.add_le_add_right (Nat.mul_le_mul_left _ hdigit) _
      _ < 10 ^ rest.length * 9 + 10 ^ rest.length := Nat.add_lt_add_left htail _
      _ = 10 ^ (c :: rest).length := by rw [List.length_cons, Nat.pow_succ]; ring

end HttpUri.Numeral
