import HttpUri.Proofs.Query.Refusal
import HttpUri.Proofs.Query.RoundTrip

/-! Which parameters have a query string, and that it fits the grammar of queries. -/
namespace HttpUri.Query
variable {charset s t : Text} {cs : Charset} {codec : Codec} {params : List Parameter}

theorem isUnencodable_of_format [Codecs] (hname : Codec.find charset = .ok codec)
    (hblames : codec.BlamesCharacters) {e : CodecError} (h : format params charset = .error e) :
    e.IsUnencodable := by
  obtain ⟨before, t, after, -, -, hreject⟩ := format_eq_error.1 h
  exact hreject.isUnencodable hname hblames

theorem exists_encodeText_iff [Codecs] (hname : Codec.find charset = .ok codec) :
    (∃ t, encodeText charset s = .ok t) ↔ codec.Encodes s := by
  rw [← Percent.exists_encode_iff hname]
  constructor
  · rintro ⟨t, h⟩
    obtain ⟨e, he, -⟩ := Outcome.bind_eq_ok.1 h
    exact ⟨e, he⟩
  · rintro ⟨e, he⟩
    exact ⟨_, Outcome.bind_eq_ok.2 ⟨e, he, rfl⟩⟩

/-- Parameters have a query string just when all of their texts can be written. -/
theorem exists_format_iff [Codecs] (hname : Codec.find charset = .ok codec) :
    (∃ q, format params charset = .ok q) ↔ ∀ p ∈ params, ∀ t ∈ p.texts, codec.Encodes t := by
  have hpiece : ∀ p : Parameter, (∃ piece, formatPiece charset p = .ok piece) ↔
      ∀ t ∈ p.texts, codec.Encodes t := by
    intro p
    simp only [← exists_encodeText_iff hname]
    rw [← Outcome.exists_mapM_iff, formatPiece_eq]
    simp only [Outcome.map_eq_ok]
    exact ⟨fun ⟨_, x, hx, _⟩ => ⟨x, hx⟩, fun ⟨x, hx⟩ => ⟨_, x, hx, rfl⟩⟩
  have hpieces : (∃ pieces, params.mapM (formatPiece charset) = .ok pieces) ↔
      ∀ p ∈ params, ∀ t ∈ p.texts, codec.Encodes t := by
    rw [Outcome.exists_mapM_iff]
    exact forall₂_congr fun p _ => hpiece p
  rw [← hpieces]
  constructor
  · intro h
    obtain ⟨q, h⟩ := h
    obtain ⟨pieces, hp, -⟩ := Outcome.bind_eq_ok.1 h
    exact ⟨pieces, hp⟩
  · intro h
    obtain ⟨pieces, hp⟩ := h
    exact ⟨_, Outcome.bind_eq_ok.2 ⟨pieces, hp, rfl⟩⟩

/-- Without a codec, parameters cannot be formatted just when they hold any text. -/
theorem format_eq_error_of_unfound [Codecs] {e d : CodecError}
    (hname : Codec.find charset = .error d) : format params charset = .error e ↔
      (∃ t ∈ params.flatMap Parameter.texts, t ≠ []) ∧ e = d := by
  have htext : ∀ s e, encodeText charset s = .error e ↔ s ≠ [] ∧ e = d := by
    intro s e
    rw [encodeText_eq_error, Codec.rejects_of_unfound hname]
  rw [format, Outcome.bind_pure_eq_error, mapM_formatPiece_eq_error,
    Outcome.mapM_eq_error_of_unique htext]

theorem format_eq_error_of_found [Codecs] {e : CodecError}
    (hname : Codec.find charset = .ok codec) :
    format params charset = .error e ↔
      codec.RefusesFirst (params.flatMap Parameter.texts) e := by
  rw [format_eq_error]
  simp only [exists_encodeText_iff hname, Codec.rejects_of_found hname, Codec.RefusesFirst]

def Encodable (cs : Charset) (p : Parameter) : Prop :=
  p.name.all cs.has = true ∧ ∀ v ∈ p.value, v.all cs.has = true

theorem encodable_iff_texts {p : Parameter} :
    Encodable cs p ↔ ∀ t ∈ p.texts, t.all cs.has = true := by
  rw [Encodable, Parameter.texts, List.forall_mem_cons]
  refine and_congr_right fun _ => forall_congr' fun v => ?_
  rw [Option.mem_toList, Option.mem_def]

theorem exists_format_iff_encodable [Codecs] (hcs : Charset.ofName? charset = some cs) :
    (∃ q, format params charset = .ok q) ↔ ∀ p ∈ params, Encodable cs p := by
  rw [exists_format_iff (Codec.find_of_ofName? hcs)]
  simp only [encodable_iff_texts, Charset.encodes_iff]

/-- In a charset that has all characters, parameters have a query string just when no surrogate is
in them. -/
theorem exists_format_iff_scalar [Codecs] (hcs : Charset.ofName? charset = some cs)
    (hhas : cs.has = (!·.isSurrogate)) :
    (∃ q, format params charset = .ok q) ↔ ∀ p ∈ params, ∀ t ∈ p.texts, t.isScalar = true := by
  rw [exists_format_iff_encodable hcs]
  simp only [encodable_iff_texts, hhas, Text.isScalar]

theorem isQueryChar_of_isNameChar {c : CodePoint} (h : Grammar.isNameChar c = true) :
    c ≠ '%' ∧ Grammar.isQueryChar c = true := by
  refine ⟨?_, ?_⟩
  · rintro rfl
    exact absurd h (by decide)
  · simp only [Grammar.isQueryChar, Grammar.isPathChar, Grammar.isSegmentChar,
      Grammar.isUserInfoChar, h, Bool.true_or]

theorem isEncoded_encodeText [Codecs] (h : encodeText charset s = .ok t) :
    Grammar.isEncoded Grammar.isQueryChar t = true := by
  have hbyte : ∀ b : UInt8, (Percent.isUnreserved b || b == 0x20) = true →
      CodePoint.ofNat b.toNat ≠ '%' ∧
        (Grammar.isNameChar (CodePoint.ofNat b.toNat) || decide (CodePoint.ofNat b.toNat =
          ' ')) = true :=
    forall_byte (by decide +kernel)
  obtain ⟨e, he, h⟩ := Outcome.bind_eq_ok.1 h
  have heq := Except.ok.inj h
  subst heq
  obtain ⟨bytes, rfl⟩ := Percent.exists_bytes_of_encode he
  -- Spaces are still there before the plus signs go in, and are no characters of a query.
  refine Grammar.isEncoded_map (p := fun c => Grammar.isNameChar c || decide (c = ' ')) rfl ?_ ?_ ?_
  · intro c hc
    refine if_neg ?_
    rintro rfl
    exact absurd hc (by decide)
  · intro c hc
    by_cases hspace : c = ' '
    · rw [if_pos hspace]
      decide
    · rw [if_neg hspace]
      have hname : Grammar.isNameChar c = true := by simpa [hspace] using hc
      exact isQueryChar_of_isNameChar hname
  · rw [← List.append_nil (Percent.encodeBytes _ _)]
    refine Grammar.isEncoded_encodeBytes (fun b _ hb => hbyte b ?_) rfl
    simp only [Bool.or_eq_true, Bool.and_eq_true] at hb ⊢
    exact hb.imp_right And.right

theorem isEncoded_formatPiece [Codecs] {p : Parameter} {piece : Text}
    (h : formatPiece charset p = .ok piece) :
    Grammar.isEncoded Grammar.isQueryChar piece = true := by
  obtain ⟨name, value⟩ := p
  obtain ⟨n, hn, h⟩ := Outcome.bind_eq_ok.1 h
  cases value with
  | none =>
    have heq := Except.ok.inj h
    subst heq
    exact isEncoded_encodeText hn
  | some value =>
    obtain ⟨v, hv, h⟩ := Outcome.bind_eq_ok.1 h
    have heq := Except.ok.inj h
    subst heq
    have hvalue : Grammar.isEncoded Grammar.isQueryChar (.char '=' :: v) = true := by
      rw [Grammar.isEncoded_cons (by decide), isEncoded_encodeText hv]
      rfl
    exact Grammar.isEncoded_append (isEncoded_encodeText hn) hvalue

/-- A formatted query string fits the grammar of queries, whatever the charset. -/
theorem isEncoded_format [Codecs] (h : format params charset = .ok s) :
    Grammar.isEncoded Grammar.isQueryChar s = true := by
  obtain ⟨pieces, hp, h⟩ := Outcome.bind_eq_ok.1 h
  have heq := Except.ok.inj h
  subst heq
  refine Grammar.isEncoded_intercalate (by decide) (by decide) fun piece hpiece => ?_
  obtain ⟨p, -, hpp⟩ := Outcome.exists_of_mem_mapM hp hpiece
  exact isEncoded_formatPiece hpp

end HttpUri.Query
