import HttpUri.Charset.Registry
import HttpUri.Proofs.Query.Encodable

/-! Query strings in UTF-16. Its bytes need not be those of ASCII, and a text without a percent sign
is read as it stands: just the parameters come back of which every text has a byte to escape. -/
namespace HttpUri

namespace Utf16

theorem two_le_length_encodeChar (c : Char) : 2 ≤ (encodeChar c).length := by
  have hunit : ∀ u, (unitBytes u).length = 2 := fun _ => rfl
  unfold encodeChar
  split
  · exact Nat.le_of_eq (hunit _).symm
  · simp only [List.length_append, hunit]
    omega

theorem length_lt_length_bytes {s : Text} (hs : s.isScalar = true) (h : s ≠ []) :
    s.length < (Charset.utf16le.bytes s).length := by
  have hdouble : ∀ t : List Char, 2 * t.length ≤ (Charset.utf16le.bytes (t.map .char)).length := by
    intro t
    induction t with
    | nil => exact Nat.zero_le _
    | cons c rest ih =>
      have hc := two_le_length_encodeChar c
      change 2 * (rest.length + 1) ≤ (encodeChar c ++ Charset.utf16le.bytes (rest.map .char)).length
      rw [List.length_append]
      omega
  obtain ⟨t, rfl⟩ := Text.exists_map_char hs
  have ht := hdouble t
  have hpos := List.length_pos_iff.2 h
  rw [List.length_map] at hpos ⊢
  omega

end Utf16

namespace Parameter
variable {f : Text → Text} {p : Parameter}

theorem map_eq_self_iff : p.map f = p ↔ ∀ t ∈ p.texts, f t = t := by
  obtain ⟨name, value⟩ := p
  cases value with
  | none => simp [map, texts]
  | some value => simp [map, texts]

theorem isSome_value_map (f : Text → Text) (p : Parameter) :
    (p.map f).value.isSome = p.value.isSome := Option.isSome_map

end Parameter

namespace Query
variable {charset s : Text} {params : List Parameter}

/-- Some byte of the text in UTF-16 is not that of a letter, a digit, or one of `-`, `.`, `_` and
`~`. -/
def HasEscape (s : Text) : Prop := ∃ b ∈ Charset.utf16le.bytes s, Percent.isUnreserved b = false

instance : Decidable (HasEscape s) :=
  inferInstanceAs (Decidable (∃ b ∈ Charset.utf16le.bytes s, Percent.isUnreserved b = false))

/-- What an encoded text is read as: without an escape, as the characters of its bytes. -/
def reread (s : Text) : Text :=
  if HasEscape s then s else (Charset.utf16le.bytes s).map fun b => CodePoint.ofNat b.toNat

/-- A space that is written as a plus sign leaves the other byte of its unit, zero, to escape. -/
theorem exists_unsafe_iff : HasEscape s ↔ ∃ b ∈ Charset.utf16le.bytes s,
    (Percent.isUnreserved b || (decide (.char ' ' ∈ s) && b == 0x20)) = false := by
  constructor
  · intro h
    by_cases hspace : .char ' ' ∈ s
    · have hzero : (0x00 : UInt8) ∈ Charset.utf16le.bytes s :=
        List.mem_flatMap.2 ⟨' ', hspace, by decide⟩
      refine ⟨0x00, hzero, ?_⟩
      rw [decide_eq_true hspace]
      decide
    · obtain ⟨b, hb, hescape⟩ := h
      refine ⟨b, hb, ?_⟩
      rw [hescape, decide_eq_false hspace, Bool.false_and, Bool.false_or]
  · intro h
    obtain ⟨b, hb, hunsafe⟩ := h
    exact ⟨b, hb, (Bool.or_eq_false_iff.1 hunsafe).1⟩

theorem rereads_utf16le [Codecs] (hcs : Charset.ofName? charset = some .utf16le) :
    Rereads charset reread := by
  intro s t h
  obtain ⟨e, he, hascii, hdecode⟩ := exists_encode_of_encodeText h
  obtain ⟨hhas, rfl⟩ := (Percent.encode_eq_ok hcs).1 he
  have hunsafe : (decide (.char ' ' ∈ s) && (0x25 : UInt8) == 0x20) = false := Bool.and_false _
  have hpercent : .char '%' ∈ Percent.encodeBytes (fun b => decide (.char ' ' ∈ s) && b == 0x20)
      (Charset.utf16le.bytes s) ↔ HasEscape s := by
    rw [Percent.percent_mem_encodeBytes hunsafe, exists_unsafe_iff]
  rw [hdecode, reread]
  split
  · next hescape =>
    rw [Percent.decode_of_mem hcs hascii (hpercent.2 hescape),
      Percent.decodeBytes_encodeBytes hunsafe, Charset.decode_bytes hhas]
  · next hescape =>
    have hplain : ∀ b ∈ Charset.utf16le.bytes s, Percent.isUnreserved b = true :=
      fun b hb => Bool.of_not_eq_false fun hplain => hescape ⟨b, hb, hplain⟩
    rw [Percent.decode_of_not_mem (mt hpercent.1 hescape),
      Percent.encodeBytes_of_isUnreserved hplain]

/-- There are more bytes than characters, so that these are not the characters of the bytes. -/
theorem reread_eq_self_iff (h : s.isScalar = true) :
    reread s = s ↔ (s ≠ [] → HasEscape s) := by
  unfold reread
  split
  · next hescape => exact iff_of_true rfl fun _ => hescape
  · next hescape =>
    constructor
    · intro heq hs
      have hlength := congrArg List.length heq
      rw [List.length_map] at hlength
      exact absurd hlength (Nat.ne_of_gt (Utf16.length_lt_length_bytes h hs))
    · intro hall
      obtain rfl : s = [] := not_not.1 (mt hall hescape)
      rfl

theorem map_reread_eq_self_iff (hscalar : ∀ p ∈ params, ∀ t ∈ p.texts, t.isScalar = true) :
    params.map (·.map reread) = params ↔ ∀ p ∈ params, ∀ t ∈ p.texts, t ≠ [] → HasEscape t := by
  have hall : params.map (·.map reread) = params ↔ ∀ p ∈ params, p.map reread = p := by
    conv_lhs => rhs; rw [← List.map_id params]
    exact List.map_inj_left
  rw [hall]
  refine forall₂_congr fun p hp => ?_
  rw [Parameter.map_eq_self_iff]
  exact forall₂_congr fun t ht => reread_eq_self_iff (hscalar p hp t ht)

/-- Parameters of which each has a name or a value are formatted if no surrogate is in them, and a
character is to blame if they are not. What they are formatted as is read as as many parameters,
each with a value or without one as before. They come back just when all their texts, other than
empty ones, have a byte to escape. -/
theorem parse_format_utf16le [Codecs] (hcs : Charset.ofName? charset = some .utf16le)
    (hne : ⟨[], none⟩ ∉ params) :
    ((∃ q, format params charset = .ok q) ↔ ∀ p ∈ params, ∀ t ∈ p.texts, t.isScalar = true) ∧
    (∀ e, format params charset = .error e → e.IsUnencodable) ∧
    ∀ q, format params charset = .ok q → ∃ back, parse q charset = .ok back ∧
      (back = params ↔ ∀ p ∈ params, ∀ t ∈ p.texts, t ≠ [] → HasEscape t) ∧
      back.length = params.length ∧
      back.map (·.value.isSome) = params.map (·.value.isSome) := by
  have hscalar : (∃ q, format params charset = .ok q) ↔ _ :=
    exists_format_iff_scalar hcs Charset.has_utf16le
  have hblames : ∀ e, format params charset = .error e → e.IsUnencodable := fun e he =>
    isUnencodable_of_format (Codec.find_of_ofName? hcs) Charset.utf16le.blamesCharacters he
  refine ⟨hscalar, hblames, fun q hq => ?_⟩
  have hparse := parse_of_format_map hcs (rereads_utf16le hcs) hne hq
  refine ⟨params.map (·.map reread), hparse, map_reread_eq_self_iff (hscalar.1 ⟨q, hq⟩),
    List.length_map _, ?_⟩
  rw [List.map_map]
  exact List.map_congr_left fun p _ => Parameter.isSome_value_map reread p

/-- A name of two bytes that are letters does not come back; spaces, signs, an empty value and
characters of two units do. -/
theorem parse_format_utf16le_of_letters :
    let lost : Parameter := ⟨"慡".points, some "x".points⟩
    let kept : List Parameter :=
      [⟨"a b".points, some "+%&=".points⟩, ⟨[], some []⟩, ⟨"𝄞é".points, none⟩]
    let charset := "utf-16-le".points
    (∃ q back, format (lost :: kept) charset = .ok q ∧ parse q charset = .ok back ∧
      back ≠ lost :: kept ∧ back.length = 4) ∧
    ∃ q, format kept charset = .ok q ∧ parse q charset = .ok kept := by
  intro lost kept charset
  have hcs : Charset.ofName? charset = some .utf16le := rfl
  constructor
  · have hnamed : ⟨[], none⟩ ∉ lost :: kept := by decide
    obtain ⟨hformat, -, hread⟩ := parse_format_utf16le hcs hnamed
    obtain ⟨q, hq⟩ := hformat.2 (by decide)
    obtain ⟨back, hback, hiff, hlength, -⟩ := hread q hq
    refine ⟨q, back, hq, hback, fun heq => ?_, hlength⟩
    have hescape := hiff.1 heq lost List.mem_cons_self "慡".points List.mem_cons_self (by decide)
    exact absurd hescape (by decide)
  · have hnamed : ⟨[], none⟩ ∉ kept := by decide
    obtain ⟨hformat, -, hread⟩ := parse_format_utf16le hcs hnamed
    obtain ⟨q, hq⟩ := hformat.2 (by decide)
    obtain ⟨back, hback, hiff, -⟩ := hread q hq
    obtain rfl : back = kept := hiff.2 (by decide)
    exact ⟨q, hq, hback⟩

/-- A name that is a surrogate has no query string to be read. -/
theorem not_format_utf16le_of_surrogate :
    let params : List Parameter := [⟨[.surrogate 0], none⟩]
    ⟨[], none⟩ ∉ params ∧ ∃ run, format params "utf-16-le".points = .error (.unencodable run) ∧
      run.char = .surrogate 0 :=
  ⟨by decide, _, rfl, rfl⟩

end Query
end HttpUri
