import HttpUri.Charset.Utf8
import HttpUri.Charset.Utf16
import HttpUri.Charset.Windows1252

/-! Charsets: characters as bytes and back. -/
namespace HttpUri

/-- The charsets that are built in. -/
inductive Charset
  | utf8
  | latin1
  | ascii
  | windows1252
  | utf16le
  deriving DecidableEq, Repr

namespace Charset

def encodeChar? : Charset → CodePoint → Option (List UInt8)
  | .utf8, .char c => some (String.utf8EncodeChar c)
  | .latin1, c => if c.toNat < 0x100 then some [UInt8.ofNat c.toNat] else none
  | .ascii, c => if c.toNat < 0x80 then some [UInt8.ofNat c.toNat] else none
  | .windows1252, c => (Windows1252.encodeChar? c).map ([·])
  | .utf16le, .char c => some (Utf16.encodeChar c)
  | .utf8, .surrogate _ | .utf16le, .surrogate _ => none

def has (cs : Charset) (c : CodePoint) : Bool := (cs.encodeChar? c).isSome

theorem has_utf8 : Charset.utf8.has = (!·.isSurrogate) := by
  funext c
  cases c <;> rfl

theorem has_utf16le : Charset.utf16le.has = (!·.isSurrogate) := by
  funext c
  cases c <;> rfl

/-- The bytes of a text; a character that the charset does not have gives none. -/
def bytes (cs : Charset) (s : Text) : List UInt8 :=
  s.flatMap fun c => (cs.encodeChar? c).getD []

/-- The text that the bytes stand for, bytes without a meaning replaced. -/
def decode : Charset → List UInt8 → Text
  | .utf8, bytes => Utf8.reader.read bytes
  | .latin1, bytes => bytes.map fun b => CodePoint.ofNat b.toNat
  | .ascii, bytes => bytes.map fun b =>
    if b.toNat < 0x80 then CodePoint.ofNat b.toNat else replacement
  | .windows1252, bytes => bytes.map fun b => (Windows1252.decodeByte? b).getD replacement
  | .utf16le, bytes => Utf16.reader.read bytes

@[simp] theorem bytes_nil (cs : Charset) : cs.bytes [] = [] := rfl

@[simp] theorem bytes_cons (cs : Charset) (c : CodePoint) (s : Text) :
    cs.bytes (c :: s) = (cs.encodeChar? c).getD [] ++ cs.bytes s := rfl

@[simp] theorem bytes_append (cs : Charset) (s t : Text) :
    cs.bytes (s ++ t) = cs.bytes s ++ cs.bytes t := List.flatMap_append

/-- A charset that lacks the surrogates and nothing else reads text character by character. -/
theorem decode_bytes_of_chars {cs : Charset} {encode : Char → List UInt8}
    (hhas : cs.has = (!·.isSurrogate)) (hencode : ∀ c : Char, cs.encodeChar? c = some (encode c))
    (hread : ∀ t : List Char, cs.decode (t.flatMap encode) = t.map .char) {s : Text}
    (hs : s.all cs.has = true) : cs.decode (cs.bytes s) = s := by
  rw [hhas] at hs
  obtain ⟨t, rfl⟩ := Text.exists_map_char hs
  rw [bytes, List.flatMap_map, ← hread t]
  simp only [hencode, Option.getD_some]

theorem map_bytes {cs : Charset} {read : UInt8 → CodePoint}
    (h : ∀ c bytes, cs.encodeChar? c = some bytes → bytes.map read = [c]) {s : Text}
    (hs : s.all cs.has = true) : (cs.bytes s).map read = s := by
  induction s with
  | nil => rfl
  | cons c rest ih =>
    simp only [List.all_cons, Bool.and_eq_true, has, Option.isSome_iff_exists] at hs
    obtain ⟨⟨bytes, hb⟩, hrest⟩ := hs
    rw [bytes_cons, hb, Option.getD_some, List.map_append, h c bytes hb, ih hrest]
    rfl

/-- Text in a charset that has all its characters reads back. -/
theorem decode_bytes {cs : Charset} {s : Text} (h : s.all cs.has = true) :
    cs.decode (cs.bytes s) = s := by
  cases cs with
  | utf8 => exact decode_bytes_of_chars has_utf8 (fun _ => rfl) Utf8.read_encode h
  | utf16le => exact decode_bytes_of_chars has_utf16le (fun _ => rfl) Utf16.read_encode h
  | latin1 =>
    refine map_bytes (fun c bytes hb => ?_) h
    simp only [encodeChar?, Option.ite_none_right_eq_some, Option.some.injEq] at hb
    obtain ⟨hc, rfl⟩ := hb
    have : (UInt8.ofNat c.toNat).toNat = c.toNat := by simp; omega
    simp [this, CodePoint.ofNat_toNat]
  | ascii =>
    refine map_bytes (fun c bytes hb => ?_) h
    simp only [encodeChar?, Option.ite_none_right_eq_some, Option.some.injEq] at hb
    obtain ⟨hc, rfl⟩ := hb
    have : (UInt8.ofNat c.toNat).toNat = c.toNat := by simp; omega
    simp [this, hc, CodePoint.ofNat_toNat]
  | windows1252 =>
    refine map_bytes (fun c bytes hb => ?_) h
    simp only [encodeChar?, Option.map_eq_some_iff] at hb
    obtain ⟨b, hb, rfl⟩ := hb
    simp [Windows1252.decodeByte?_of_encodeChar? hb]

end Charset
end HttpUri
