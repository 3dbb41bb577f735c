import HttpUri.Percent

/-! Charsets in which the ASCII characters are the bytes of their numbers. -/
namespace HttpUri

namespace Charset

/-- Each ASCII character is the one byte of its number. -/
def extendsAscii : Charset → Bool
  | .utf8 | .latin1 | .ascii | .windows1252 => true
  | .utf16le => false

end Charset

/-- What holds of the first 128 characters holds of every ASCII one. -/
theorem forall_ascii {P : CodePoint → Prop} (h : ∀ n < 0x80, P (CodePoint.ofNat n)) {c : CodePoint}
    (hc : Percent.isAscii c = true) : P c := by
  rw [← CodePoint.ofNat_toNat c]
  exact h c.toNat (of_decide_eq_true hc)

theorem Percent.isSurrogate_of_isAscii {c : CodePoint} (h : isAscii c = true) :
    c.isSurrogate = false := by
  obtain ⟨d, rfl⟩ := CodePoint.exists_char_of_lt (Nat.lt_trans (of_decide_eq_true h) (by decide))
  rfl

theorem Text.isAscii_of_isHex {c : CodePoint} (h : isHex c = true) : Percent.isAscii c = true := by
  unfold isHex hexValue? at h
  split at h
  · next hc => exact decide_eq_true (Nat.lt_of_le_of_lt hc.2 (by decide))
  · split at h
    · next hc => exact decide_eq_true (Nat.lt_of_le_of_lt hc.2 (by decide))
    · split at h
      · next hc => exact decide_eq_true (Nat.lt_of_le_of_lt hc.2 (by decide))
      · exact nomatch h

theorem isAscii_of_isAlphanum {c : CodePoint} (h : c.isAlphanum = true) :
    Percent.isAscii c = true := by
  obtain ⟨c, rfl⟩ := CodePoint.exists_char_of_isAlphanum h
  have hc : c.val.toNat = c.toNat := rfl
  change (c.isAlpha || c.isDigit) = true at h
  unfold Char.isAlpha Char.isUpper Char.isLower Char.isDigit at h
  simp only [Bool.or_eq_true, Bool.and_eq_true, decide_eq_true_eq, UInt32.le_iff_toNat_le,
    ge_iff_le, hc] at h
  apply decide_eq_true
  rw [CodePoint.toNat]
  have hz : 'z'.val.toNat = 122 := rfl
  have hZ : 'Z'.val.toNat = 90 := rfl
  have h9 : '9'.val.toNat = 57 := rfl
  omega

theorem forall_byte {P : UInt8 → Prop} (h : ∀ n < 0x100, P (UInt8.ofNat n)) (b : UInt8) : P b := by
  rw [← UInt8.ofNat_toNat (x := b)]
  exact h b.toNat b.toNat_lt

theorem Windows1252.encodeChar?_of_ascii {c : CodePoint} (hc : c.toNat < 0x80) :
    encodeChar? c = some (UInt8.ofNat c.toNat) := by
  have htable : ∀ p ∈ table, 0x80 ≤ p.2.toNat := by decide
  have hnone : table.find? (fun p => p.2 = c) = none := by
    rw [List.find?_eq_none]
    intro p hp he
    have hle := htable p hp
    rw [of_decide_eq_true he] at hle
    omega
  have hspecial : isSpecial c.toNat = false := by
    simp only [isSpecial, Bool.and_eq_false_iff, decide_eq_false_iff_not]
    omega
  unfold encodeChar?
  rw [hnone]
  exact if_pos ⟨by omega, hspecial⟩

theorem Windows1252.le_of_encodeChar? {c : CodePoint} {b : UInt8} (h : encodeChar? c = some b)
    (hc : 0x80 ≤ c.toNat) : 0x80 ≤ b.toNat := by
  have htable : ∀ p ∈ table, 0x80 ≤ (UInt8.ofNat p.1).toNat := by decide
  unfold encodeChar? at h
  split at h
  · next p hp =>
    obtain ⟨rfl⟩ := Option.some.inj h
    exact htable p (List.mem_of_find?_eq_some hp)
  · split at h
    · next hlt =>
      obtain ⟨rfl⟩ := Option.some.inj h
      have hb : (UInt8.ofNat c.toNat).toNat = c.toNat := by simp; omega
      omega
    · exact nomatch h

theorem Utf8.le_of_mem_encodeChar {c : Char} {b : UInt8} (hb : b ∈ String.utf8EncodeChar c)
    (hc : 0x80 ≤ c.toNat) : 0x80 ≤ b.toNat := by
  have hval : ¬ c.val.toNat ≤ 127 := Nat.not_le.2 hc
  unfold String.utf8EncodeChar at hb
  simp only [hval, if_false] at hb
  -- The first byte of each form and the bytes that continue it all have the upper bit.
  split at hb
  · simp only [List.mem_cons, List.not_mem_nil, or_false] at hb
    rcases hb with rfl | rfl <;> simp <;> omega
  · split at hb
    · simp only [List.mem_cons, List.not_mem_nil, or_false] at hb
      rcases hb with rfl | rfl | rfl <;> simp <;> omega
    · simp only [List.mem_cons, List.not_mem_nil, or_false] at hb
      rcases hb with rfl | rfl | rfl | rfl <;> simp <;> omega

namespace Charset
variable {cs : Charset}

theorem encodeChar?_of_ascii (h : cs.extendsAscii = true) {c : CodePoint} (hc : c.toNat < 0x80) :
    cs.encodeChar? c = some [UInt8.ofNat c.toNat] := by
  cases cs with
  | utf8 =>
    obtain ⟨c, rfl⟩ := CodePoint.exists_char_of_lt (by omega : c.toNat < 0xD800)
    have hle : c.val.toNat ≤ 127 := Nat.le_of_lt_succ hc
    simp only [encodeChar?, String.utf8EncodeChar, hle, if_true]
    rfl
  | latin1 => exact if_pos (by omega)
  | ascii => exact if_pos hc
  | windows1252 => rw [encodeChar?, Windows1252.encodeChar?_of_ascii hc]; rfl
  | utf16le => exact absurd h (by decide)

theorem has_of_isAscii {c : CodePoint} (hc : Percent.isAscii c = true) : cs.has c = true := by
  cases h : cs.extendsAscii with
  | true =>
    rw [has, encodeChar?_of_ascii h (of_decide_eq_true hc)]
    rfl
  | false =>
    have hlt : c.toNat < 0x80 := of_decide_eq_true hc
    obtain ⟨c, rfl⟩ := CodePoint.exists_char_of_lt (by omega : c.toNat < 0xD800)
    cases cs with
    | utf16le => rfl
    | _ => exact absurd h (by decide)

/-- Characters above ASCII have bytes above it, whichever of these charsets they are written in. -/
theorem le_of_mem_encodeChar? (h : cs.extendsAscii = true) {c : CodePoint} {bytes : List UInt8}
    (hc : cs.encodeChar? c = some bytes) (hle : 0x80 ≤ c.toNat) : ∀ b ∈ bytes, 0x80 ≤ b.toNat := by
  have hone : ∀ n : Nat, n < 0x100 → 0x80 ≤ n → ∀ b ∈ [UInt8.ofNat n], 0x80 ≤ b.toNat := by
    intro n hn hle b hb
    rw [List.mem_singleton.1 hb]
    simp
    omega
  cases cs with
  | utf8 =>
    cases c with
    | surrogate i => exact nomatch hc
    | char c =>
      have heq := Option.some.inj hc
      subst heq
      exact fun b hb => Utf8.le_of_mem_encodeChar hb hle
  | latin1 =>
    obtain ⟨hlt, heq⟩ := Option.ite_none_right_eq_some.1 hc
    have heq := Option.some.inj heq
    subst heq
    exact hone c.toNat hlt hle
  | ascii =>
    obtain ⟨hlt, -⟩ := Option.ite_none_right_eq_some.1 hc
    omega
  | windows1252 =>
    obtain ⟨d, hd, rfl⟩ := Option.map_eq_some_iff.1 hc
    intro b hb
    rw [List.mem_singleton.1 hb]
    exact Windows1252.le_of_encodeChar? hd hle
  | utf16le => exact absurd h (by decide)

theorem toNat_of_mem_encodeChar? (h : cs.extendsAscii = true) {c : CodePoint} {bytes : List UInt8}
    (hc : cs.encodeChar? c = some bytes) {b : UInt8} (hb : b ∈ bytes) (hlt : b.toNat < 0x80) :
    b.toNat = c.toNat := by
  by_cases hascii : c.toNat < 0x80
  · have heq := Option.some.inj ((encodeChar?_of_ascii h hascii).symm.trans hc)
    subst heq
    rw [List.mem_singleton.1 hb]
    simp
    omega
  · have hle := le_of_mem_encodeChar? h hc (Nat.not_lt.1 hascii) b hb
    omega

/-- A byte that reads as an ASCII character by itself is of that character. -/
theorem eq_of_mem_encodeChar? (h : cs.extendsAscii = true) {c d : CodePoint}
    (hd : Percent.isAscii d = true) {b : UInt8} (hb : b ∈ (cs.encodeChar? c).getD [])
    (hbyte : CodePoint.ofNat b.toNat = d) : c = d := by
  have hn : b.toNat = d.toNat := by rw [← hbyte, Percent.toNat_ofByte]
  have hlt : b.toNat < 0x80 := hn ▸ of_decide_eq_true hd
  cases hc : cs.encodeChar? c with
  | none =>
    rw [hc] at hb
    exact absurd hb List.not_mem_nil
  | some bytes =>
    rw [hc] at hb
    rw [← CodePoint.ofNat_toNat c, ← CodePoint.ofNat_toNat d, ← hn,
      toNat_of_mem_encodeChar? h hc hb hlt]

theorem encodeChar?_ne_nil {c : CodePoint} : cs.encodeChar? c ≠ some [] := by
  cases cs with
  | utf8 =>
    intro h
    cases c with
    | surrogate i => exact Option.some_ne_none _ h.symm
    | char c =>
      have hlength := congrArg List.length (Option.some.inj h)
      rw [String.length_utf8EncodeChar] at hlength
      exact absurd hlength (Nat.ne_of_gt c.utf8Size_pos)
  | latin1 => simp [encodeChar?]
  | ascii => simp [encodeChar?]
  | windows1252 => simp [encodeChar?]
  | utf16le =>
    intro h
    cases c with
    | surrogate i => exact Option.some_ne_none _ h.symm
    | char c =>
      have hnil := Option.some.inj h
      unfold Utf16.encodeChar at hnil
      split at hnil
      · exact List.cons_ne_nil _ _ hnil
      · exact List.cons_ne_nil _ _ hnil

@[simp] theorem decode_nil (cs : Charset) : cs.decode [] = [] := by
  cases cs <;> rfl

theorem bytes_of_ascii (h : cs.extendsAscii = true) {s : Text}
    (hs : ∀ c ∈ s, Percent.isAscii c = true) :
    s.all cs.has = true ∧ cs.bytes s = s.map fun c => UInt8.ofNat c.toNat := by
  induction s with
  | nil => exact ⟨rfl, rfl⟩
  | cons c rest ih =>
    obtain ⟨hhas, hbytes⟩ := ih fun d hd => hs d (List.mem_cons_of_mem c hd)
    have hc := encodeChar?_of_ascii h (of_decide_eq_true (hs c List.mem_cons_self))
    rw [List.all_cons, has, hc, bytes_cons, hc, hbytes]
    exact ⟨hhas, rfl⟩

theorem decode_of_ascii (h : cs.extendsAscii = true) {s : Text}
    (hs : ∀ c ∈ s, Percent.isAscii c = true) :
    cs.decode (s.map fun c => UInt8.ofNat c.toNat) = s := by
  obtain ⟨hhas, hbytes⟩ := bytes_of_ascii h hs
  rw [← hbytes]
  exact decode_bytes hhas

end Charset
end HttpUri
