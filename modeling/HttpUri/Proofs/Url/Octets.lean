import HttpUri.Charset.Registry
import HttpUri.Proofs.Reference.Paths
import HttpUri.Proofs.Url.Path

/-! An encoded path stands for the octets that the path itself stands for. -/
namespace HttpUri

namespace Percent
variable {high low : CodePoint} {bytes rest : List UInt8}

theorem exists_byte (hh : Text.isHex high = true) (hl : Text.isHex low = true) :
    ∃ b, byte? high low = some b := by
  obtain ⟨x, hx⟩ := Option.isSome_iff_exists.1 hh
  obtain ⟨y, hy⟩ := Option.isSome_iff_exists.1 hl
  exact ⟨_, by rw [byte?, hx, hy]⟩

theorem isHex_of_byte? {b : UInt8} (h : byte? high low = some b) :
    Text.isHex high = true ∧ Text.isHex low = true := by
  unfold byte? at h
  split at h
  · next x y hx hy => exact ⟨Option.isSome_of_mem hx, Option.isSome_of_mem hy⟩
  · exact nomatch h

/-- The octets that bytes stand for: a percent sign with the bytes of two digits behind it stands
for one octet, every other byte for itself. -/
def octets (bytes : List UInt8) : List UInt8 :=
  decodeBytes (bytes.map fun b => CodePoint.ofNat b.toNat)

theorem octets_append (h : (0x25 : UInt8) ∉ bytes) :
    octets (bytes ++ rest) = bytes ++ octets rest := by
  induction bytes with
  | nil => rfl
  | cons b tail ih =>
    rw [List.mem_cons, not_or] at h
    have hne : CodePoint.ofNat b.toNat ≠ '%' := by
      intro heq
      have hn := toNat_ofByte b
      rw [heq] at hn
      exact h.1 (UInt8.toNat_inj.1 hn)
    have htail := ih h.2
    unfold octets at htail ⊢
    rw [List.cons_append, List.map_cons, decodeBytes_cons_of_ne hne, toNat_ofByte,
      UInt8.ofNat_toNat, htail, List.cons_append]

end Percent

namespace Charset
variable {cs : Charset} {s : Text}

/-- The bytes of a text begin with an ASCII character just when the text does. -/
theorem exists_of_bytes_cons (ha : cs.extendsAscii = true) (hs : s.all cs.has = true) {b : UInt8}
    {rest : List UInt8} (h : cs.bytes s = b :: rest) {d : CodePoint}
    (hd : Percent.isAscii d = true) (hb : CodePoint.ofNat b.toNat = d) :
    ∃ t, s = d :: t ∧ t.all cs.has = true ∧ cs.bytes t = rest := by
  cases s with
  | nil => exact nomatch h
  | cons c t =>
    obtain ⟨hhas, ht⟩ := Bool.and_eq_true_iff.1 hs
    obtain ⟨own, hown⟩ := Option.isSome_iff_exists.1 hhas
    rw [bytes_cons, hown, Option.getD_some] at h
    cases own with
    | nil => exact absurd hown encodeChar?_ne_nil
    | cons x xs =>
      obtain ⟨rfl, hrest⟩ := List.cons.inj h
      have hx : x ∈ (cs.encodeChar? c).getD [] := by
        rw [hown]
        exact List.mem_cons_self
      obtain rfl : c = d := eq_of_mem_encodeChar? ha hd hx hb
      rw [encodeChar?_of_ascii ha (of_decide_eq_true hd)] at hown
      obtain ⟨-, rfl⟩ := List.cons.inj (Option.some.inj hown)
      exact ⟨t, rfl, ht, hrest⟩

end Charset

namespace Builder
variable {charset p : Text} {cs : Charset}
open Percent (octets)

/-- Behind a stray percent sign the bytes of the text are no two digits either. -/
theorem octets_stray (ha : cs.extendsAscii = true) (hp : p.all cs.has = true)
    (h : startsPair p = false) : octets (0x25 :: cs.bytes p) = 0x25 :: octets (cs.bytes p) := by
  refine Percent.decodeBytes_of_stray fun high low tail heq => ?_
  refine Option.eq_none_iff_forall_ne_some.2 fun b hb => ?_
  obtain ⟨hh, hl⟩ := Percent.isHex_of_byte? hb
  obtain ⟨x, xs, hx, hxhigh, hxs⟩ := List.map_eq_cons_iff.1 heq
  obtain ⟨y, ys, rfl, hylow, -⟩ := List.map_eq_cons_iff.1 hxs
  obtain ⟨t, rfl, ht, hbytes⟩ :=
    Charset.exists_of_bytes_cons ha hp hx (Text.isAscii_of_isHex hh) hxhigh
  obtain ⟨u, rfl, -⟩ := Charset.exists_of_bytes_cons ha ht hbytes (Text.isAscii_of_isHex hl) hylow
  rw [startsPair, hh, hl] at h
  exact Bool.false_ne_true h.symm

theorem bytes_cons_of_isAscii (ha : cs.extendsAscii = true) {c : CodePoint}
    (hc : Percent.isAscii c = true) (s : Text) :
    cs.bytes (c :: s) = UInt8.ofNat c.toNat :: cs.bytes s := by
  rw [Charset.bytes_cons, Charset.encodeChar?_of_ascii ha (of_decide_eq_true hc)]
  rfl

theorem decodeBytes_cons_of_isHex (ha : cs.extendsAscii = true) {c : CodePoint}
    (hc : Text.isHex c = true) (s : Text) :
    Percent.decodeBytes (pathText cs (c :: s)) =
        UInt8.ofNat c.toNat :: Percent.decodeBytes (pathText cs s) ∧
      octets (cs.bytes (c :: s)) = UInt8.ofNat c.toNat :: octets (cs.bytes s) := by
  have hascii := Text.isAscii_of_isHex hc
  have hne : UInt8.ofNat c.toNat ≠ 0x25 :=
    forall_ascii (P := fun c => Text.isHex c = true → UInt8.ofNat c.toNat ≠ 0x25) (by decide)
      hascii hc
  have hsign : c ≠ '%' := by
    rintro rfl
    exact absurd hc (by decide)
  have hmem : (0x25 : UInt8) ∉ [UInt8.ofNat c.toNat] := mt List.mem_singleton.1 hne.symm
  constructor
  · rw [pathText_cons_of_isHex ha hc, Percent.decodeBytes_cons_of_ne hsign]
  · rw [bytes_cons_of_isAscii ha hascii]
    exact Percent.octets_append hmem

/-- Two digits are read with the percent sign in front of them, in a path as in its bytes. -/
theorem octets_triplet {high low : CodePoint} {b : UInt8} (h : Percent.byte? high low = some b)
    (rest : List UInt8) :
    octets (0x25 :: UInt8.ofNat high.toNat :: UInt8.ofNat low.toNat :: rest) =
      b :: octets rest := by
  have hchar : ∀ c, Text.isHex c = true →
      CodePoint.ofNat (UInt8.ofNat c.toNat).toNat = c := fun c hc =>
    forall_ascii (P := fun c => CodePoint.ofNat (UInt8.ofNat c.toNat).toNat = c) (by decide)
      (Text.isAscii_of_isHex hc)
  obtain ⟨hh, hl⟩ := Percent.isHex_of_byte? h
  unfold octets
  rw [List.map_cons, List.map_cons, List.map_cons, hchar high hh, hchar low hl]
  exact Percent.decodeBytes_of_byte h _

/-- The induction is on the path; the digits behind a percent sign are read by themselves in the
hypothesis, and with it in the conclusion. -/
theorem decodeBytes_pathText (ha : cs.extendsAscii = true) (hp : p.all cs.has = true) :
    Percent.decodeBytes (pathText cs p) = octets (cs.bytes p) := by
  induction p with
  | nil => rfl
  | cons c rest ih =>
    obtain ⟨-, hrest⟩ := Bool.and_eq_true_iff.1 hp
    have ih := ih hrest
    by_cases hc : c = '%'
    · subst hc
      rw [pathText_percent ha, bytes_cons_of_isAscii ha rfl]
      cases hpair : startsPair rest with
      | false =>
        -- The triplet that is put in stands for the one percent sign.
        have hsign : Percent.byte? '2' '5' = some 0x25 := rfl
        rw [if_neg Bool.false_ne_true, Percent.decodeBytes_of_byte hsign, ih]
        exact (octets_stray ha hrest hpair).symm
      | true =>
        obtain ⟨high, low, t, rfl, hh, hl⟩ := startsPair_eq_true hpair
        obtain ⟨b, hb⟩ := Percent.exists_byte hh hl
        have htail : Percent.decodeBytes (pathText cs t) = octets (cs.bytes t) := by
          obtain ⟨htext, hbytes⟩ := decodeBytes_cons_of_isHex ha hh (low :: t)
          obtain ⟨htext', hbytes'⟩ := decodeBytes_cons_of_isHex ha hl t
          rw [htext, hbytes, htext', hbytes'] at ih
          exact (List.cons.inj (List.cons.inj ih).2).2
        rw [if_pos rfl, pathText_cons_of_isHex ha hh, pathText_cons_of_isHex ha hl,
          Percent.decodeBytes_of_byte hb, htail,
            bytes_cons_of_isAscii ha (Text.isAscii_of_isHex hh),
          bytes_cons_of_isAscii ha (Text.isAscii_of_isHex hl)]
        exact (octets_triplet hb _).symm
    · have hno : ∀ b ∈ (cs.encodeChar? c).getD [], b ≠ 0x25 := by
        rintro b hb rfl
        exact hc (Charset.eq_of_mem_encodeChar? ha (d := .char '%') rfl hb rfl)
      rw [pathText_cons_of_ne hc, Charset.bytes_cons,
        Percent.decodeBytes_encodeBytes_append fun b hb heq => absurd heq (hno b hb), ih,
        Percent.octets_append fun hm => hno _ hm rfl]

theorem startsPair_of_isEncoded {allowed : CodePoint → Bool} {s x y : Text}
    (h : Grammar.isEncoded allowed s = true) (hs : s = x ++ .char '%' :: y) :
    startsPair y = true := by
  induction s using Grammar.isEncoded.induct generalizing x with
  | case1 => exact absurd hs (by simp)
  | case2 high low rest ih =>
    rw [Grammar.isEncoded, Bool.and_eq_true, Bool.and_eq_true] at h
    obtain ⟨⟨hh, hl⟩, hrest⟩ := h
    rcases x with _ | ⟨a, _ | ⟨b, _ | ⟨c, x⟩⟩⟩
    · obtain rfl : high :: low :: rest = y := (List.cons.inj hs).2
      rw [startsPair, hh, hl]
      rfl
    · obtain rfl : high = '%' := (List.cons.inj (List.cons.inj hs).2).1
      exact absurd hh (by decide)
    · obtain rfl : low = '%' := (List.cons.inj (List.cons.inj (List.cons.inj hs).2).2).1
      exact absurd hl (by decide)
    · exact ih hrest (List.cons.inj (List.cons.inj (List.cons.inj hs).2).2).2
  | case3 c rest hno ih =>
    rw [Grammar.isEncoded, Bool.and_eq_true, Bool.and_eq_true, decide_eq_true_eq] at h
    · cases x with
      | nil => exact absurd (List.cons.inj hs).1 h.1.1
      | cons _ x => exact ih h.2 (List.cons.inj hs).2
    · exact hno

/-- The encoded form of a path is an ASCII path of the grammar and its own encoded form, a path that
was one already stands as it is, and the octets that the path stands for are the same. -/
theorem encodePath_faithful [Codecs] (hcs : Charset.ofName? charset = some cs)
    (ha : cs.extendsAscii = true) (hp : p.all cs.has = true) :
    ∃ e, encodePath charset p = .ok e ∧
      (∀ c ∈ e, Percent.isAscii c = true) ∧ e ∈ Abnf.anyPath ∧
      (∀ x y : Text, e = x ++ .char '%' :: y → startsPair y = true) ∧
      encodePath charset e = .ok e ∧
      ((∀ c ∈ p, Percent.isAscii c = true) → p ∈ Abnf.anyPath → e = p) ∧
      Percent.decodeBytes e = Percent.octets (cs.bytes p) := by
  have he : encodePath charset p = .ok (pathText cs p) := (encodePath_eq_ok hcs).2 ⟨hp, rfl⟩
  have hpath : Grammar.isEncoded Grammar.isPathChar (pathText cs p) = true :=
    isEncoded_pathText ha p
  refine ⟨pathText cs p, he, fun c => isAscii_of_mem_pathText, Abnf.mem_anyPath.2 hpath,
    fun x y => startsPair_of_isEncoded hpath, encodePath_encoded hcs ha he, fun hascii hfits => ?_,
    decodeBytes_pathText ha hp⟩
  exact pathText_eq_self ha hascii (Abnf.mem_anyPath.1 hfits)

/-- Stray percent signs before a triplet, before one half of a triplet and before a letter that is
written as one. -/
theorem encodePath_faithful_of_stray :
    let p := "%%41/%2%35 %é%".points
    let e := "%25%41/%252%35%20%25%E9%25".points
    p.all Charset.latin1.has = true ∧ encodePath "latin-1".points p = .ok e ∧
      encodePath "latin-1".points e = .ok e ∧
      Percent.decodeBytes e = Percent.octets (Charset.latin1.bytes p) := by
  intro p e
  have hcs : Charset.ofName? "latin-1".points = some .latin1 := rfl
  have hp : p.all Charset.latin1.has = true := by decide
  obtain ⟨own, he, -, -, -, hagain, -, hoctets⟩ := encodePath_faithful hcs rfl hp
  obtain rfl : e = own := Except.ok.inj ((show encodePath _ p = .ok e from rfl).symm.trans he)
  exact ⟨hp, he, hagain, hoctets⟩

end Builder
end HttpUri
