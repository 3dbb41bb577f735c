/-! Code points: characters, and surrogates, which stand for no character. -/
namespace HttpUri

inductive CodePoint
  | char (c : Char)
  | surrogate (i : Fin 2048)
  deriving DecidableEq, Repr

namespace CodePoint

attribute [coe] char

instance : Coe Char CodePoint := ⟨char⟩

def toNat : CodePoint → Nat
  | char c => c.toNat
  | surrogate i => 0xD800 + i

/-- The code point of a number, or U+0000 if the number is too large. -/
def ofNat (n : Nat) : CodePoint :=
  if 0xD800 ≤ n ∧ n < 0xE000 then surrogate (Fin.ofNat 2048 (n - 0xD800)) else char (Char.ofNat n)

instance : LE CodePoint := ⟨fun a b => a.toNat ≤ b.toNat⟩

instance (a b : CodePoint) : Decidable (a ≤ b) := Nat.decLe a.toNat b.toNat

def isSurrogate : CodePoint → Bool
  | char _ => false
  | surrogate _ => true

def isDigit : CodePoint → Bool
  | char c => c.isDigit
  | surrogate _ => false

def isAlpha : CodePoint → Bool
  | char c => c.isAlpha
  | surrogate _ => false

def isAlphanum (c : CodePoint) : Bool := c.isAlpha || c.isDigit

/-- The small form of an ASCII letter, and any other code point itself. -/
def toLower : CodePoint → CodePoint
  | char c => char c.toLower
  | surrogate i => surrogate i

theorem ofNat_of_isValidChar {n : Nat} (h : n.isValidChar) : ofNat n = char (Char.ofNat n) := by
  refine if_neg ?_
  rcases h with h | h <;> omega

theorem toNat_ofNat_of_isValidChar {n : Nat} (h : n.isValidChar) : (ofNat n).toNat = n := by
  rw [ofNat_of_isValidChar h, toNat, Char.toNat, Char.ofNat, dif_pos h]
  rfl

@[simp] theorem ofNat_toNat (c : CodePoint) : ofNat c.toNat = c := by
  cases c with
  | char c =>
    have hc : c.toNat.isValidChar := c.valid
    rw [toNat, ofNat_of_isValidChar hc, Char.ofNat_toNat]
  | surrogate i =>
    have hi : i.val < 2048 := i.isLt
    rw [toNat, ofNat, if_pos (by omega), Nat.add_sub_cancel_left, Fin.ofNat_val_eq_self]

@[simp] theorem toNat_inj {a b : CodePoint} : a.toNat = b.toNat ↔ a = b :=
  ⟨fun h => by rw [← ofNat_toNat a, h, ofNat_toNat], congrArg toNat⟩

theorem toNat_lt (c : CodePoint) : c.toNat < 0x110000 := by
  cases c with
  | char c =>
    have hc : c.toNat < 0xD800 ∨ 0xDFFF < c.toNat ∧ c.toNat < 0x110000 := c.valid
    rw [toNat]
    omega
  | surrogate i =>
    rw [toNat]
    omega

theorem isSurrogate_iff (c : CodePoint) :
    c.isSurrogate = true ↔ 0xD800 ≤ c.toNat ∧ c.toNat < 0xE000 := by
  cases c with
  | char c =>
    have hc : c.toNat < 0xD800 ∨ 0xDFFF < c.toNat ∧ c.toNat < 0x110000 := c.valid
    refine iff_of_false Bool.false_ne_true ?_
    rw [toNat]
    omega
  | surrogate i =>
    refine iff_of_true rfl ?_
    rw [toNat]
    omega

theorem exists_char_of_lt {c : CodePoint} (h : c.toNat < 0xD800) : ∃ d : Char, c = d := by
  cases c with
  | char c => exact ⟨c, rfl⟩
  | surrogate i => exact absurd h (by rw [toNat]; omega)

theorem exists_char_of_isAlphanum {c : CodePoint} (h : c.isAlphanum = true) :
    ∃ d : Char, c = d := by
  cases c with
  | char c => exact ⟨c, rfl⟩
  | surrogate i => exact nomatch h

theorem isAlphanum_of_isAlpha {c : CodePoint} (h : c.isAlpha = true) : c.isAlphanum = true := by
  rw [isAlphanum, h, Bool.true_or]

theorem isDigit_iff {c : CodePoint} : c.isDigit = true ↔ '0' ≤ c ∧ c ≤ '9' := by
  cases c with
  | char c =>
    change c.isDigit = true ↔ '0'.toNat ≤ c.toNat ∧ c.toNat ≤ '9'.toNat
    simp only [Char.isDigit, Bool.and_eq_true, decide_eq_true_eq]
    rfl
  | surrogate i =>
    have hnine : '9'.toNat < 0xD800 := by decide
    refine iff_of_false Bool.false_ne_true fun h => ?_
    have hle : 0xD800 + i.val ≤ '9'.toNat := h.2
    omega

end CodePoint
end HttpUri
