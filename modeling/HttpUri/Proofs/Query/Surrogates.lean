import HttpUri.Proofs.Query.Decoding
import HttpUri.Proofs.Query.Encodable

/-! Surrogates in query strings. No bytes are read as one, so that parameters hold surrogates just
when the text does that they are read from. -/
namespace HttpUri

theorem ByteReader.isScalar_readFrom {σ : Type} {r : ByteReader σ}
    (hstep : ∀ state b, (r.step state b).1.isScalar = true)
    (hfinish : ∀ state, (r.finish state).isScalar = true) (state : σ) (bytes : List UInt8) :
    (r.readFrom state bytes).isScalar = true := by
  induction bytes generalizing state with
  | nil => exact hfinish state
  | cons b rest ih =>
    rw [readFrom, Text.isScalar_append, hstep, ih]
    rfl

@[simp] theorem Utf8.isScalar_first (b : Nat) : (first b).1.isScalar = true := by
  unfold first
  split_ifs <;> rfl

@[simp] theorem Utf8.isScalar_step (state : State) (b : UInt8) :
    (step state b).1.isScalar = true := by
  cases state with
  | idle => exact isScalar_first b.toNat
  | within bits missing least greatest =>
    rw [step]
    split_ifs
    · rfl
    · rfl
    · exact isScalar_first b.toNat

@[simp] theorem Utf16.isScalar_first (u : Nat) : (first u).1.isScalar = true := by
  unfold first
  split_ifs <;> rfl

@[simp] theorem Utf16.isScalar_step (state : State) (b : UInt8) :
    (step state b).1.isScalar = true := by
  obtain ⟨upper, low⟩ := state
  cases low with
  | none => rfl
  | some low =>
    cases upper with
    | none => exact isScalar_first (low + 256 * b.toNat)
    | some upper =>
      dsimp only [step]
      split_ifs
      · rfl
      · exact isScalar_first (low + 256 * b.toNat)

theorem Text.isScalar_map {read : UInt8 → CodePoint} (h : ∀ b, (read b).isSurrogate = false)
    (bytes : List UInt8) : isScalar (bytes.map read) = true :=
  isScalar_iff.2 (List.forall_mem_map.2 fun b _ => h b)

/-- Whatever the bytes, no surrogate is read. -/
@[simp] theorem Charset.isScalar_decode (cs : Charset) (bytes : List UInt8) :
    (cs.decode bytes).isScalar = true := by
  cases cs with
  | utf8 => exact ByteReader.isScalar_readFrom Utf8.isScalar_step (by rintro (_ | _) <;> rfl) _ _
  | utf16le =>
    refine ByteReader.isScalar_readFrom Utf16.isScalar_step (fun state => ?_) _ _
    exact iteInduction (motive := fun t => Text.isScalar t = true) (fun _ => rfl) fun _ => rfl
  | latin1 => exact Text.isScalar_map (forall_byte (by decide +kernel)) bytes
  | ascii => exact Text.isScalar_map (forall_byte (by decide +kernel)) bytes
  | windows1252 => exact Text.isScalar_map (forall_byte (by decide +kernel)) bytes

/-- What is copied keeps its surrogates, and what is read has none. -/
theorem Percent.Decodes.isScalar_eq {codec : Codec} {s t : Text}
    {outcome : Except CodecError Text} (h : Decodes codec s outcome)
    (hdecode : ∀ bytes t, codec.decode bytes = .ok t → t.isScalar = true)
    (ht : outcome = .ok t) : t.isScalar = s.isScalar := by
  induction h generalizing t with
  | nil =>
    obtain rfl := Except.ok.inj ht
    rfl
  | copied hc _ ih =>
    obtain ⟨tail, htail, rfl⟩ := Outcome.map_eq_ok.1 ht
    rw [Text.isScalar_cons, Text.isScalar_cons, ih htail]
  | read hne hrun hend hbytes hread _ ih =>
    obtain ⟨tail, htail, rfl⟩ := Outcome.map_eq_ok.1 ht
    have hplain := Text.isScalar_iff.2 fun c hc =>
      isSurrogate_of_isAscii (List.all_eq_true.1 hrun c hc)
    rw [Text.isScalar_append, Text.isScalar_append, hdecode _ _ hread, hplain, ih htail]
  | refused => exact nomatch ht

namespace Query
variable {charset raw piece s t : Text} {cs : Charset} {p : Parameter} {params : List Parameter}

@[simp] theorem isScalar_spaced (s : Text) :
    Text.isScalar (s.map fun c : CodePoint => if c = '+' then .char ' ' else c) = s.isScalar := by
  rw [Text.isScalar, Text.isScalar, List.all_map]
  congr 1
  funext c
  by_cases hc : c = '+'
  · simp only [Function.comp_apply, hc, if_true]
    rfl
  · simp only [Function.comp_apply, hc, if_false]

theorem ReadsText.isScalar_eq [Codecs] (hcs : Charset.ofName? charset = some cs)
    {outcome : Except CodecError Text} (h : ReadsText charset s outcome) (ht : outcome = .ok t) :
    t.isScalar = s.isScalar := by
  cases h with
  | plain hs =>
    obtain rfl := Except.ok.inj ht
    exact isScalar_spaced s
  | unfound hs hname => exact nomatch ht
  | decoded hs hname h =>
    obtain rfl := Except.ok.inj ((Codec.find_of_ofName? hcs).symm.trans hname)
    rw [h.isScalar_eq (fun bytes t hread => ?_) ht, isScalar_spaced]
    obtain rfl : cs.decode bytes = t := Except.ok.inj hread
    exact cs.isScalar_decode bytes

theorem ReadsPiece.isScalar_iff [Codecs] (hcs : Charset.ofName? charset = some cs)
    {outcome : Except CodecError Parameter} (h : ReadsPiece charset piece outcome)
    (hp : outcome = .ok p) : (∀ t ∈ p.texts, t.isScalar = true) ↔ piece.isScalar = true := by
  cases h with
  | bare hs hname =>
    obtain ⟨name, rfl, rfl⟩ := Outcome.map_eq_ok.1 hp
    rw [← hname.isScalar_eq hcs rfl]
    exact List.forall_mem_singleton
  | valued hs hvalue hname =>
    obtain ⟨name, rfl, rfl⟩ := Outcome.map_eq_ok.1 hp
    rw [Text.isScalar_append, Text.isScalar_cons, ← hname.isScalar_eq hcs rfl,
      ← hvalue.isScalar_eq hcs rfl, Bool.and_eq_true]
    exact List.forall_mem_cons.trans (and_congr_right fun _ => List.forall_mem_singleton)
  | unvalued => exact nomatch hp

theorem Reads.isScalar_iff [Codecs] (hcs : Charset.ofName? charset = some cs)
    {outcome : Except CodecError (List Parameter)} (h : Reads charset raw outcome)
    (hparams : outcome = .ok params) :
    (∀ p ∈ params, ∀ t ∈ p.texts, t.isScalar = true) ↔ raw.isScalar = true := by
  induction h generalizing params with
  | nil =>
    obtain rfl := Except.ok.inj hparams
    exact iff_of_true nofun rfl
  | last hne hend hp =>
    obtain rfl := Except.ok.inj hparams
    rw [List.forall_mem_singleton, hp.isScalar_iff hcs rfl]
  | gap _ ih => exact ih hparams
  | cons hne hend hp _ ih =>
    obtain ⟨rest, hrest, rfl⟩ := Outcome.map_eq_ok.1 hparams
    rw [List.forall_mem_cons, hp.isScalar_iff hcs rfl, ih hrest, Text.isScalar_append,
      Text.isScalar_cons, Bool.and_eq_true]
    rfl
  | lastRefused => exact nomatch hparams
  | refused => exact nomatch hparams

/-- In a charset that has all characters, what was read has a query string just when it was read
from a text without surrogates. -/
theorem exists_format_of_parse_iff [Codecs] (hcs : Charset.ofName? charset = some cs)
    (hhas : cs.has = (!·.isSurrogate)) (h : parse raw charset = .ok params) :
    (∃ q, format params charset = .ok q) ↔ raw.isScalar = true :=
  (exists_format_iff_scalar hcs hhas).trans ((parse_eq_iff.1 h).isScalar_iff hcs rfl)

end Query
end HttpUri
