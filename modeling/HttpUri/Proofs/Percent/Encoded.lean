import HttpUri.Proofs.Charset.Ascii
import HttpUri.Proofs.Percent.Failure
import HttpUri.Proofs.Reference.Encoded

/-! The characters of percent-encoded texts, and what such texts stand for. -/
namespace HttpUri

namespace Text

theorem isHex_capitalHexDigit : ∀ n < 16, isHex (capitalHexDigit n) = true := by
  decide

end Text

namespace Percent
variable {safe : UInt8 → Bool} {charset s e : Text} {cs : Charset}

/-- A character of an encoded text is the percent sign, a hexadecimal digit, or a byte that stands
for itself. -/
theorem mem_encodeBytes {bytes : List UInt8} {c : CodePoint} (h : c ∈ encodeBytes safe bytes) :
    c = '%' ∨ Text.isHex c = true ∨
      ∃ b, (isUnreserved b || safe b) = true ∧ c = CodePoint.ofNat b.toNat := by
  obtain ⟨b, -, hb⟩ := List.mem_flatMap.1 h
  have hlt : b.toNat < 256 := b.toNat_lt
  unfold encodeByte at hb
  split at hb
  · next hs => exact .inr (.inr ⟨b, hs, List.mem_singleton.1 hb⟩)
  · simp only [List.mem_cons, List.not_mem_nil, or_false] at hb
    rcases hb with rfl | rfl | rfl
    · exact .inl rfl
    · exact .inr (.inl (Text.isHex_capitalHexDigit _ (by omega)))
    · exact .inr (.inl (Text.isHex_capitalHexDigit _ (by omega)))

theorem exists_bytes_of_encode [Codecs] (h : encode safe charset s = .ok e) :
    ∃ bytes, e = encodeBytes safe bytes := by
  unfold encode at h
  split at h
  · exact ⟨[], (Except.ok.inj h).symm⟩
  · obtain ⟨cs, -, h⟩ := Outcome.bind_eq_ok.1 h
    obtain ⟨bytes, -, h⟩ := Outcome.bind_eq_ok.1 h
    exact ⟨bytes, (Except.ok.inj h).symm⟩

@[simp] theorem encodeBytes_eq_nil_iff {bytes : List UInt8} : encodeBytes safe bytes = [] ↔
    bytes = [] := by
  cases bytes with
  | nil => exact iff_of_true rfl rfl
  | cons b rest =>
    have hbyte : encodeByte safe b ≠ [] := by
      unfold encodeByte
      split
      · exact List.cons_ne_nil _ _
      · exact List.cons_ne_nil _ _
    refine iff_of_false ?_ (List.cons_ne_nil b rest)
    exact List.append_ne_nil_of_left_ne_nil hbyte _

theorem decodeBytes_of_not_mem (h : .char '%' ∉ s) :
    decodeBytes s = s.map fun c => UInt8.ofNat c.toNat := by
  induction s with
  | nil => rfl
  | cons c rest ih =>
    rw [List.mem_cons, not_or] at h
    rw [decodeBytes_cons_of_ne (Ne.symm h.1), ih h.2, List.map_cons]

/-- A percent sign is written just for a byte that is neither unreserved nor safe. -/
theorem percent_mem_encodeBytes {bytes : List UInt8} (h : safe 0x25 = false) :
    .char '%' ∈ encodeBytes safe bytes ↔ ∃ b ∈ bytes, (isUnreserved b || safe b) = false := by
  have hbyte : ∀ b, .char '%' ∈ encodeByte safe b ↔ (isUnreserved b || safe b) = false := by
    intro b
    unfold encodeByte
    split
    · next hs =>
      refine iff_of_false ?_ (ne_false_of_eq_true hs)
      intro hmem
      have hnumber := toNat_ofByte b
      rw [← List.mem_singleton.1 hmem] at hnumber
      obtain rfl : 0x25 = b := UInt8.toNat_inj.1 hnumber
      rw [h] at hs
      exact absurd hs (by decide)
    · next hs => exact iff_of_true List.mem_cons_self (Bool.eq_false_iff.2 hs)
  simp only [encodeBytes, List.mem_flatMap, hbyte]

theorem encodeBytes_of_isUnreserved {bytes : List UInt8} (h : ∀ b ∈ bytes, isUnreserved b = true) :
    encodeBytes safe bytes = bytes.map fun b => CodePoint.ofNat b.toNat := by
  have hbyte : ∀ b ∈ bytes, encodeByte safe b = [CodePoint.ofNat b.toNat] := by
    intro b hb
    rw [encodeByte, h b hb, Bool.true_or, if_pos rfl]
  rw [encodeBytes, List.flatMap_congr hbyte, List.map_eq_flatMap]

theorem encode_eq_ok [Codecs] (hcs : Charset.ofName? charset = some cs) :
    encode safe charset s = .ok e ↔ s.all cs.has = true ∧ encodeBytes safe (cs.bytes s) = e := by
  by_cases hs : s = []
  · subst hs
    simp [encode, pure, Except.pure, encodeBytes]
  · rw [encode_of_found (Codec.find_of_ofName? hcs) hs, Outcome.map_eq_ok]
    constructor
    · rintro ⟨bytes, hb, rfl⟩
      obtain ⟨hhas, rfl⟩ := Charset.encode_eq_ok.1 hb
      exact ⟨hhas, rfl⟩
    · rintro ⟨hhas, rfl⟩
      exact ⟨_, Charset.encode_eq_ok.2 ⟨hhas, rfl⟩, rfl⟩

theorem encode_eq_nil_iff [Codecs] (hcs : Charset.ofName? charset = some cs)
    (h : encode safe charset s = .ok e) : e = [] ↔ s = [] := by
  obtain ⟨hhas, rfl⟩ := (encode_eq_ok hcs).1 h
  rw [encodeBytes_eq_nil_iff]
  constructor
  · intro hnil
    have hback := Charset.decode_bytes hhas
    rw [hnil, Charset.decode_nil] at hback
    exact hback.symm
  · rintro rfl
    rfl

theorem decode_of_mem [Codecs] (hcs : Charset.ofName? charset = some cs)
    (hs : ∀ c ∈ s, isAscii c = true) (hmem : .char '%' ∈ s) :
    decode charset s = .ok (cs.decode (decodeBytes s)) := by
  unfold decode
  rw [if_neg (not_not.2 hmem)]
  refine Outcome.bind_eq_ok.2 ⟨cs.codec, Codec.find_of_ofName? hcs, ?_⟩
  rw [decodeAfter_of_ascii cs.codec [] (List.all_eq_true.2 hs)]
  exact if_neg (List.ne_nil_of_mem hmem)

theorem decode_of_not_mem [Codecs] (hmem : .char '%' ∉ s) : decode charset s = .ok s := if_pos hmem

/-- Where ASCII characters are their own bytes, the text is read from the bytes even without a
percent sign. -/
theorem decode_eq_ok [Codecs] (hcs : Charset.ofName? charset = some cs)
    (ha : cs.extendsAscii = true)
    (hs : ∀ c ∈ s, isAscii c = true) : decode charset s = .ok (cs.decode (decodeBytes s)) := by
  by_cases hmem : .char '%' ∈ s
  · exact decode_of_mem hcs hs hmem
  · rw [decode_of_not_mem hmem, decodeBytes_of_not_mem hmem, Charset.decode_of_ascii ha hs]

end Percent

namespace Grammar
variable {p : CodePoint → Bool}

theorem isPathChar_of_isHex {c : CodePoint} (h : Text.isHex c = true) : isPathChar c = true :=
  forall_ascii (P := fun c => Text.isHex c = true → isPathChar c = true) (by decide)
    (Text.isAscii_of_isHex h) h

theorem isEncoded_triplet {high low : CodePoint} {t : Text} (hh : Text.isHex high = true)
    (hl : Text.isHex low = true) (h : isEncoded p (high :: low :: t) = true) :
    isEncoded p (.char '%' :: high :: low :: t) = true := by
  have hne : ∀ d, Text.isHex d = true → d ≠ '%' := by
    rintro d hd rfl
    exact absurd hd (by decide)
  rw [isEncoded_cons (hne high hh), isEncoded_cons (hne low hl), Bool.and_eq_true,
    Bool.and_eq_true] at h
  rw [isEncoded, hh, hl, h.2.2]
  rfl

/-- Bytes that are written by themselves or as triplets are encoded text. -/
theorem isEncoded_encodeBytes {safe : UInt8 → Bool} {bytes : List UInt8} {t : Text}
    (hb : ∀ b ∈ bytes, (Percent.isUnreserved b || safe b) = true →
      CodePoint.ofNat b.toNat ≠ '%' ∧
        p (CodePoint.ofNat b.toNat) = true) (ht : isEncoded p t = true) :
    isEncoded p (Percent.encodeBytes safe bytes ++ t) = true := by
  induction bytes with
  | nil => exact ht
  | cons b rest ih =>
    have hrest := ih fun d hd => hb d (List.mem_cons_of_mem b hd)
    have hlt : b.toNat < 256 := b.toNat_lt
    rw [Percent.encodeBytes, List.flatMap_cons, List.append_assoc, ← Percent.encodeBytes,
      Percent.encodeByte]
    split
    · next hs =>
      obtain ⟨hne, hp⟩ := hb b List.mem_cons_self hs
      rw [List.cons_append, List.nil_append, isEncoded_cons hne, hp, hrest]
      rfl
    · simp only [List.cons_append, List.nil_append]
      rw [isEncoded, Text.isHex_capitalHexDigit _ (by omega),
        Text.isHex_capitalHexDigit _ (by omega), hrest]
      rfl

end Grammar
end HttpUri
