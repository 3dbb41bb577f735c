import HttpUri.Proofs.Number.Digits
import HttpUri.Url

/-! Which ports are numbers, and which number each of them is. -/
namespace HttpUri
variable {port : Option Text} {digits text : Text} {number : Option Nat}

theorem parsePort_of_ne_nil (hne : digits ≠ []) : parsePort (some digits) text =
    if Numeral.isDigits digits = false then .error (.url (.portNotNumber text))
    else if Numeral.digitLimit < digits.length then .error (.tooManyDigits digits.length)
    else .ok (some (Numeral.value digits)) := by
  cases digits with
  | nil => exact absurd rfl hne
  | cons d rest =>
    rw [parsePort]
    exact nofun

theorem parsePort_of_empty (h : port.getD [] = []) : parsePort port text = .ok none := by
  cases port with
  | none => rfl
  | some d =>
    have heq : d = [] := h
    subst heq
    rfl

theorem parsePort_eq_ok (h : parsePort (some digits) text = .ok number) (hne : digits ≠ []) :
    Numeral.isDigits digits = true ∧ digits.length ≤ Numeral.digitLimit ∧
      number = some (Numeral.value digits) := by
  rw [parsePort_of_ne_nil hne] at h
  split at h
  · exact nomatch h
  · next hdigits =>
    split at h
    · exact nomatch h
    · next hlength =>
      exact ⟨by simpa using hdigits, Nat.not_lt.1 hlength, (Except.ok.inj h).symm⟩

theorem eq_of_parsePort (h : parsePort port text = .ok number) :
    (port.getD [] = [] → number = none) ∧
      ∀ d ∈ port, d ≠ [] → Numeral.isDigits d = true ∧ number = some (Numeral.value d) := by
  constructor
  · intro hempty
    exact Except.ok.inj (h.symm.trans (parsePort_of_empty hempty))
  · intro d hd hne
    have heq : port = some d := hd
    subst heq
    obtain ⟨hdigits, -, hnumber⟩ := parsePort_eq_ok h hne
    exact ⟨hdigits, hnumber⟩

theorem isDigits_of_parsePort (h : parsePort port text = .ok number) :
    ∀ d ∈ port, Numeral.isDigits d = true := by
  intro d hd
  by_cases hne : d = []
  · subst hne
    rfl
  · exact ((eq_of_parsePort h).2 d hd hne).1

theorem lt_of_parsePort {n : Nat} (h : parsePort port text = .ok (some n)) :
    n < 10 ^ Numeral.digitLimit := by
  cases port with
  | none => exact nomatch h
  | some d =>
    by_cases hne : d = []
    · subst hne
      exact nomatch h
    · obtain ⟨hdigits, hlength, hn⟩ := parsePort_eq_ok h hne
      obtain rfl : n = Numeral.value d := Option.some.inj hn
      calc Numeral.value d
          < 10 ^ d.length := Numeral.value_lt hdigits
        _ ≤ 10 ^ Numeral.digitLimit := Nat.pow_le_pow_right (by decide) hlength

/-- A port is refused for a character that is no digit, or for its length. -/
theorem parsePort_eq_error {e : Error} (h : parsePort port text = .error e) :
    (e = .url (.portNotNumber text) ∧ ∃ d ∈ port, Numeral.isDigits d = false) ∨
      ∃ d ∈ port, Numeral.isDigits d = true ∧ Numeral.digitLimit < d.length ∧
        e = .tooManyDigits d.length := by
  cases port with
  | none => exact nomatch h
  | some d =>
    by_cases hne : d = []
    · subst hne
      exact nomatch h
    · rw [parsePort_of_ne_nil hne] at h
      split at h
      · next hdigits => exact .inl ⟨(Except.error.inj h).symm, d, rfl, hdigits⟩
      · next hdigits =>
        split at h
        · next hlength =>
          exact .inr ⟨d, rfl, by simpa using hdigits, hlength, (Except.error.inj h).symm⟩
        · exact nomatch h

theorem parsePort_of_not_isDigits (hdigits : Numeral.isDigits digits = false) :
    parsePort (some digits) text = .error (.url (.portNotNumber text)) := by
  have hne : digits ≠ [] := by
    rintro rfl
    exact absurd hdigits (by decide)
  rw [parsePort_of_ne_nil hne, if_pos hdigits]

theorem length_le_of_parsePort (h : parsePort port text = .ok number) :
    ∀ d ∈ port, d.length ≤ Numeral.digitLimit := by
  intro d hd
  obtain rfl : port = some d := hd
  by_cases hne : d = []
  · rw [hne]
    exact Nat.zero_le _
  · exact (parsePort_eq_ok h hne).2.1

theorem parsePort_of_long (hdigits : Numeral.isDigits digits = true)
    (hlength : Numeral.digitLimit < digits.length) :
    parsePort (some digits) text = .error (.tooManyDigits digits.length) := by
  have hne : digits ≠ [] := List.ne_nil_of_length_pos (Nat.zero_lt_of_lt hlength)
  rw [parsePort_of_ne_nil hne, if_neg (by simp [hdigits]), if_pos hlength]

theorem all_isDigit_ofInt (n : Int) :
    (if 0 ≤ n then some (Numeral.ofInt n) else none).all (·.all CodePoint.isDigit) = true := by
  split
  · next hn =>
    obtain ⟨k, rfl⟩ := Int.eq_ofNat_of_zero_le hn
    exact Numeral.isDigits_ofNat k
  · rfl

theorem parsePort_ofInt {n : Int} (hn : 0 ≤ n) (hlt : n < 10 ^ Numeral.digitLimit) :
    parsePort (some (Numeral.ofInt n)) text = .ok (some n.toNat) := by
  have hlength := Numeral.length_ofInt_le hn hlt
  obtain ⟨k, rfl⟩ := Int.eq_ofNat_of_zero_le hn
  have hne : Numeral.ofInt k ≠ [] := Numeral.ofNat_ne_nil k
  have hdigits : Numeral.isDigits (Numeral.ofInt k) = true := Numeral.isDigits_ofNat k
  have hvalue : Numeral.value (Numeral.ofInt k) = k := Numeral.value_ofNat k
  rw [parsePort_of_ne_nil hne, if_neg (by simp [hdigits]), if_neg (Nat.not_lt.2 hlength), hvalue]
  rfl

theorem exists_parsePort (h : ∀ d ∈ port, Numeral.isDigits d = true ∧
    d.length ≤ Numeral.digitLimit) : ∃ number, parsePort port text = .ok number := by
  cases hport : parsePort port text with
  | ok number => exact ⟨number, rfl⟩
  | error e =>
    rcases parsePort_eq_error hport with ⟨-, d, hd, hdigits⟩ | ⟨d, hd, -, hlength, -⟩
    · rw [(h d hd).1] at hdigits
      exact absurd hdigits (by decide)
    · exact absurd (h d hd).2 (Nat.not_le.2 hlength)

end HttpUri
