import HttpUri.Text.Basic

/-! The Windows code page 1252: Latin-1 with letters and signs in place of its upper controls. -/
namespace HttpUri.Windows1252

/-- The bytes that differ from Latin-1 and have a character. -/
def table : List (Nat × CodePoint) :=
  [(0x80, '\u20ac'), (0x82, '\u201a'), (0x83, '\u0192'), (0x84, '\u201e'), (0x85, '\u2026'),
   (0x86, '\u2020'), (0x87, '\u2021'), (0x88, '\u02c6'), (0x89, '\u2030'), (0x8A, '\u0160'),
   (0x8B, '\u2039'), (0x8C, '\u0152'), (0x8E, '\u017d'), (0x91, '\u2018'), (0x92, '\u2019'),
   (0x93, '\u201c'), (0x94, '\u201d'), (0x95, '\u2022'), (0x96, '\u2013'), (0x97, '\u2014'),
   (0x98, '\u02dc'), (0x99, '\u2122'), (0x9A, '\u0161'), (0x9B, '\u203a'), (0x9C, '\u0153'),
   (0x9E, '\u017e'), (0x9F, '\u0178')]

/-- The bytes from 80 to 9F are read by the table, and five of them have no character. -/
def isSpecial (n : Nat) : Bool := decide (0x80 ≤ n) && decide (n < 0xA0)

def encodeChar? (c : CodePoint) : Option UInt8 :=
  match table.find? fun p => p.2 = c with
  | some p => some (UInt8.ofNat p.1)
  | none =>
    if c.toNat < 0x100 ∧ isSpecial c.toNat = false then some (UInt8.ofNat c.toNat) else none

def decodeByte? (b : UInt8) : Option CodePoint :=
  if isSpecial b.toNat then (table.find? fun p => p.1 = b.toNat).map (·.2)
  else some (CodePoint.ofNat b.toNat)

theorem decodeByte?_of_encodeChar? {c : CodePoint} {b : UInt8} (h : encodeChar? c = some b) :
    decodeByte? b = some c := by
  have table_decodes : ∀ p ∈ table, decodeByte? (UInt8.ofNat p.1) = some p.2 := by decide
  unfold encodeChar? at h
  split at h
  · next p hp =>
    obtain ⟨rfl⟩ : p.2 = c := by simpa using List.find?_some hp
    obtain ⟨rfl⟩ := Option.some.inj h
    exact table_decodes p (List.mem_of_find?_eq_some hp)
  · split at h
    · next hc =>
      obtain ⟨rfl⟩ := Option.some.inj h
      have hb : (UInt8.ofNat c.toNat).toNat = c.toNat := by simp; omega
      simp [decodeByte?, hb, hc.2, CodePoint.ofNat_toNat]
    · simp at h

end HttpUri.Windows1252
