import HttpUri.Proofs.Percent.Failure
import HttpUri.Proofs.Text.Pieces
import HttpUri.Query

/-! How query strings fail to be read and to be formatted. -/
namespace HttpUri

/-- The texts of a parameter in the order in which they are written: the name, and the value if
there is one. -/
def Parameter.texts (p : Parameter) : List Text := p.name :: p.value.toList

namespace Query
variable {charset s raw piece : Text} {codec : Codec} {p : Parameter} {params : List Parameter}
  {e d : CodecError}

@[simp] theorem percent_mem_map : .char '%' ∈
    (s.map fun c : CodePoint => if c = '+' then .char ' ' else c) ↔ .char '%' ∈ s := by
  rw [List.mem_map]
  constructor
  · intro h
    obtain ⟨c, hc, heq⟩ := h
    split at heq
    · exact absurd heq (by decide)
    · exact heq ▸ hc
  · exact fun h => ⟨'%', h, rfl⟩

theorem decodeText_eq_error [Codecs] (hname : Codec.find charset = .error d) :
    decodeText charset s = .error e ↔ .char '%' ∈ s ∧ e = d := by
  rw [decodeText, Percent.decode_eq_error hname, percent_mem_map]

theorem parsePiece_eq_error [Codecs] (hname : Codec.find charset = .error d) :
    parsePiece charset piece = .error e ↔ .char '%' ∈ piece ∧ e = d := by
  unfold parsePiece
  split
  · next name value hcut =>
    obtain ⟨rfl, -⟩ := Text.cutFirst_eq_some.1 hcut
    constructor
    · intro h
      rcases Outcome.bind_eq_error.1 h with hvalue | ⟨v, -, h⟩
      · obtain ⟨hmem, rfl⟩ := (decodeText_eq_error hname).1 hvalue
        exact ⟨by simp [hmem], rfl⟩
      · rcases Outcome.bind_eq_error.1 h with hn | ⟨n, -, h⟩
        · obtain ⟨hmem, rfl⟩ := (decodeText_eq_error hname).1 hn
          exact ⟨by simp [hmem], rfl⟩
        · exact nomatch h
    · intro h
      obtain ⟨hmem, rfl⟩ := h
      cases hvalue : decodeText charset value with
      | error d => rw [((decodeText_eq_error hname).1 hvalue).2]; rfl
      | ok v =>
        -- The value is read, so that the percent sign is one of the name.
        have hnot : .char '%' ∉ value := fun hv =>
          nomatch hvalue.symm.trans ((decodeText_eq_error hname).2 ⟨hv, rfl⟩)
        have hin : .char '%' ∈ name := by simpa [hnot] using hmem
        have hn := (decodeText_eq_error hname).2 ⟨hin, rfl⟩
        exact Outcome.bind_eq_error.2 (.inr ⟨v, rfl, Outcome.bind_eq_error.2 (.inl hn)⟩)
  · rw [bind_pure_comp, ← decodeText_eq_error hname]
    exact Outcome.map_eq_error

/-- Without a codec, a query string cannot be read just when it holds a percent sign. -/
theorem parse_eq_error [Codecs] (hname : Codec.find charset = .error d) :
    parse raw charset = .error e ↔ .char '%' ∈ raw ∧ e = d := by
  have hpieces : (∃ piece ∈ (raw.splitOn (.char '&')).filter (· ≠ []), .char '%' ∈ piece) ↔
      .char '%' ∈ raw := by
    constructor
    · intro h
      obtain ⟨piece, hpiece, hmem⟩ := h
      exact Text.mem_of_mem_splitOn (List.mem_filter.1 hpiece).1 hmem
    · intro h
      rcases Text.mem_splitOn '&' h with hsep | ⟨piece, hpiece, hin⟩
      · exact absurd hsep (by decide)
      · have hne : piece ≠ [] := List.ne_nil_of_mem hin
        exact ⟨piece, List.mem_filter.2 ⟨hpiece, decide_eq_true hne⟩, hin⟩
  rw [parse, Outcome.mapM_eq_error_of_unique fun _ _ => parsePiece_eq_error hname, hpieces]

theorem exists_decodeText [Codecs] (hname : Codec.find charset = .ok codec)
    (hreads : codec.ReadsAll) (s : Text) : ∃ t, decodeText charset s = .ok t :=
  Percent.exists_decode hname hreads _

theorem exists_parse [Codecs] (hname : Codec.find charset = .ok codec) (hreads : codec.ReadsAll)
    (raw : Text) : ∃ params, parse raw charset = .ok params := by
  refine Outcome.exists_mapM_iff.2 fun piece _ => ?_
  unfold parsePiece
  split
  · next name value _ =>
    obtain ⟨v, hv⟩ := exists_decodeText hname hreads value
    obtain ⟨n, hn⟩ := exists_decodeText hname hreads name
    exact ⟨_, Outcome.bind_eq_ok.2 ⟨v, hv, Outcome.bind_eq_ok.2 ⟨n, hn, rfl⟩⟩⟩
  · obtain ⟨n, hn⟩ := exists_decodeText hname hreads piece
    exact ⟨_, Outcome.bind_eq_ok.2 ⟨n, hn, rfl⟩⟩

theorem encodeText_eq_error [Codecs] : encodeText charset s = .error e ↔
    Codec.Rejects charset s e := by
  rw [encodeText, Outcome.bind_pure_eq_error, Percent.encode_eq_error]

theorem formatPiece_eq [Codecs] (charset : Text) (p : Parameter) : formatPiece charset p =
    (p.texts.mapM (encodeText charset)).map (Text.join [.char '=']) := by
  obtain ⟨name, value⟩ := p
  have hname : ∀ n : Text, Text.join [.char '='] [n] = n := fun _ => List.intercalate_singleton
  have hboth : ∀ n v : Text, Text.join [.char '='] [n, v] = n ++ .char '=' :: v := fun n v => by
    simp [Text.join]
  cases value with
  | none =>
    rw [formatPiece, Parameter.texts, Option.toList_none, List.mapM_cons, List.mapM_nil]
    cases encodeText charset name with
    | error e => rfl
    | ok n => exact congrArg Except.ok (hname n).symm
  | some value =>
    rw [formatPiece, Parameter.texts, Option.toList_some, List.mapM_cons, List.mapM_cons]
    dsimp only
    cases encodeText charset name with
    | error e => rfl
    | ok n =>
      cases encodeText charset value with
      | error e => rfl
      | ok v => exact congrArg Except.ok (hboth n v).symm

/-- Parameters fail to be formatted as the list of all of their texts fails to be encoded. -/
theorem mapM_formatPiece_eq_error [Codecs] : params.mapM (formatPiece charset) = .error e ↔
    (params.flatMap Parameter.texts).mapM (encodeText charset) = .error e := by
  induction params with
  | nil => simp [pure, Except.pure]
  | cons p rest ih =>
    rw [List.flatMap_cons, List.mapM_append, List.mapM_cons, formatPiece_eq]
    cases p.texts.mapM (encodeText charset) with
    | error d => simp only [Except.map, bind, Except.bind]
    | ok written =>
      change (rest.mapM (formatPiece charset) >>= fun pieces =>
          pure (Text.join [.char '='] written :: pieces)) = .error e ↔
        ((rest.flatMap Parameter.texts).mapM (encodeText charset) >>= fun texts =>
          pure (written ++ texts)) = .error e
      rw [Outcome.bind_pure_eq_error, Outcome.bind_pure_eq_error, ih]

/-- The first of the texts that is rejected makes the formatting fail. -/
theorem format_eq_error [Codecs] : format params charset = .error e ↔
    ∃ before t after, params.flatMap Parameter.texts = before ++ t :: after ∧
      (∀ s ∈ before, ∃ x, encodeText charset s = .ok x) ∧ Codec.Rejects charset t e := by
  rw [format, Outcome.bind_pure_eq_error, mapM_formatPiece_eq_error, Outcome.mapM_eq_error]
  simp only [encodeText_eq_error]

end Query
end HttpUri
