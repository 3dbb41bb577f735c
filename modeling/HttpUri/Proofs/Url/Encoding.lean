import HttpUri.Proofs.Percent.Encoded
import HttpUri.Url.Builder

/-! The characters of encoded paths. -/
namespace HttpUri

namespace Codec

/-- What begins with a slash is written with the byte of one first. -/
def KeepsSlash (codec : Codec) : Prop :=
  ∀ s bytes, codec.encode (.char '/' :: s) = .ok bytes → bytes.head? = some 0x2F

end Codec

theorem Charset.keepsSlash (cs : Charset) : cs.codec.KeepsSlash := by
  intro s bytes h
  have hslash : ∃ rest, cs.encodeChar? '/' = some (0x2F :: rest) := by
    cases cs with
    | utf16le => exact ⟨[0], rfl⟩
    | _ => exact ⟨[], rfl⟩
  obtain ⟨rest, hrest⟩ := hslash
  obtain ⟨-, rfl⟩ := Charset.encode_eq_ok.1 h
  rw [bytes_cons, hrest]
  rfl

namespace Builder
variable {charset p e : Text} {c : CodePoint}

theorem isPathChar_of_byte :
    ∀ b : UInt8, (Percent.isUnreserved b || isPathSafe b) = true →
      CodePoint.ofNat b.toNat = '%' ∨ Grammar.isPathChar (CodePoint.ofNat b.toNat) = true :=
  forall_byte (by decide +kernel)

theorem mem_encodePath [Codecs] (h : encodePath charset p = .ok e) (hc : c ∈ e) :
    c = '%' ∨ Grammar.isPathChar c = true := by
  obtain ⟨bytes, rfl⟩ := Percent.exists_bytes_of_encode h
  rcases Percent.mem_encodeBytes hc with rfl | hx | ⟨b, hb, rfl⟩
  · exact .inl rfl
  · exact .inr (Grammar.isPathChar_of_isHex hx)
  · exact isPathChar_of_byte b hb

theorem not_mem_encodePath [Codecs] (h : encodePath charset p = .ok e)
    (hc : c ≠ '%' ∧ Grammar.isPathChar c = false) : c ∉ e := by
  intro hm
  rcases mem_encodePath h hm with he | he
  · exact hc.1 he
  · exact Bool.false_ne_true (hc.2.symm.trans he)

@[simp] theorem encodePath_nil [Codecs] : encodePath charset [] = .ok [] := rfl

theorem encodePath_slash [Codecs] {codec : Codec} (hname : Codec.find charset = .ok codec)
    (hkeeps : codec.KeepsSlash) (h : encodePath charset (.char '/' :: p) = .ok e) :
    ∃ t, e = .char '/' :: t := by
  change Percent.encode isPathSafe charset (.char '/' :: escapeStray p) = .ok e at h
  rw [Percent.encode_of_found hname (List.cons_ne_nil _ _)] at h
  obtain ⟨bytes, hb, rfl⟩ := Outcome.map_eq_ok.1 h
  obtain ⟨rest, rfl⟩ := List.head?_eq_some_iff.1 (hkeeps _ _ hb)
  exact ⟨_, rfl⟩

end Builder
end HttpUri
