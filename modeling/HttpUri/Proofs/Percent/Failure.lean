import HttpUri.Percent
import HttpUri.Proofs.Outcome

/-! How writing and reading in a charset given by name fail: for want of the charset, or at a
character that the charset does not have. -/
namespace HttpUri

/-- The refusal of a character, as against that of a charset or of a whole text. -/
def CodecError.IsUnencodable (e : CodecError) : Prop := ∃ run, e = .unencodable run

namespace Codec

/-- A text is refused for its characters and for nothing else. -/
def BlamesCharacters (codec : Codec) : Prop :=
  ∀ s e, codec.encode s = .error e → e.IsUnencodable

/-- All bytes are read, whether they have a meaning or not. -/
def ReadsAll (codec : Codec) : Prop := ∀ bytes, ∃ s, codec.decode bytes = .ok s

/-- The text can be written. The empty text needs no charset to be. -/
def Encodes (codec : Codec) (s : Text) : Prop := s = [] ∨ ∃ bytes, codec.encode s = .ok bytes

variable {codec : Codec} {name s : Text} {e d : CodecError} {cs : Charset}

theorem find_of_ofName? [Codecs] (h : Charset.ofName? name = some cs) :
    find name = .ok cs.codec := by
  unfold Charset.ofName? at h
  have hname : Charset.standsFor cs.title cs.aliases name = true := by
    simpa using List.find?_some h
  simp only [Charset.standsFor, Bool.and_eq_true, decide_eq_true_eq] at hname
  obtain ⟨⟨hnul, hchars⟩, -⟩ := hname
  rw [Text.isScalar, ← Charset.has_utf8] at hchars
  have hwritten : Charset.utf8.encode name = .ok (Charset.utf8.bytes name) :=
    Charset.encode_eq_ok.2 ⟨hchars, rfl⟩
  rw [find, hwritten, Charset.ofName?, h]
  simp only [hnul]
  rfl

/-- Why a text cannot be written in the charset of a name: no codec has the name, or the codec
refuses the text. The empty text always can. -/
inductive Rejects [Codecs] (name s : Text) (e : CodecError) : Prop
  | unfound (hname : find name = .error e) (hs : s ≠ [])
  | refused {codec : Codec} (hname : find name = .ok codec) (hs : s ≠ [])
    (h : codec.encode s = .error e)

theorem rejects_of_unfound [Codecs] (h : find name = .error d) :
    Rejects name s e ↔ s ≠ [] ∧ e = d := by
  constructor
  · rintro (⟨hname, hs⟩ | ⟨hname, -⟩)
    · exact ⟨hs, Except.error.inj (hname.symm.trans h)⟩
    · exact nomatch hname.symm.trans h
  · rintro ⟨hs, rfl⟩
    exact .unfound h hs

theorem rejects_of_found [Codecs] (h : find name = .ok codec) :
    Rejects name s e ↔ s ≠ [] ∧ codec.encode s = .error e := by
  constructor
  · rintro (⟨hname, -⟩ | ⟨hname, hs, he⟩)
    · exact nomatch hname.symm.trans h
    · obtain rfl := Except.ok.inj (hname.symm.trans h)
      exact ⟨hs, he⟩
  · rintro ⟨hs, he⟩
    exact .refused h hs he

theorem Rejects.isUnencodable [Codecs] (h : Rejects name s e) (hname : find name = .ok codec)
    (hblames : codec.BlamesCharacters) : e.IsUnencodable :=
  hblames s e ((rejects_of_found hname).1 h).2

/-- The first of the texts that the codec cannot write, and why it cannot. -/
def RefusesFirst (codec : Codec) (texts : List Text) (e : CodecError) : Prop :=
  ∃ before t after, texts = before ++ t :: after ∧ (∀ s ∈ before, codec.Encodes s) ∧ t ≠ [] ∧
    codec.encode t = .error e

theorem encodes_or_error (codec : Codec) (s : Text) :
    codec.Encodes s ∨ s ≠ [] ∧ ∃ e, codec.encode s = .error e := by
  by_cases hs : s = []
  · exact .inl (.inl hs)
  · cases h : codec.encode s with
    | ok bytes => exact .inl (.inr ⟨bytes, h⟩)
    | error e => exact .inr ⟨hs, e, rfl⟩

theorem not_encodes (hs : s ≠ []) (h : codec.encode s = .error e) : ¬ codec.Encodes s := by
  rintro (hnil | ⟨bytes, hok⟩)
  · exact hs hnil
  · exact nomatch hok.symm.trans h

theorem refusesFirst_cons {texts : List Text} : codec.RefusesFirst (s :: texts) e ↔
    (s ≠ [] ∧ codec.encode s = .error e) ∨ (codec.Encodes s ∧ codec.RefusesFirst texts e) := by
  constructor
  · rintro ⟨before, t, after, heq, hbefore, ht, he⟩
    cases before with
    | nil =>
      obtain ⟨rfl, -⟩ := List.cons.inj heq
      exact .inl ⟨ht, he⟩
    | cons b before =>
      obtain ⟨rfl, rfl⟩ := List.cons.inj heq
      obtain ⟨hs, hbefore⟩ := List.forall_mem_cons.1 hbefore
      exact .inr ⟨hs, before, t, after, rfl, hbefore, ht, he⟩
  · rintro (⟨hs, he⟩ | ⟨hs, before, t, after, rfl, hbefore, ht, he⟩)
    · exact ⟨[], s, texts, rfl, nofun, hs, he⟩
    · exact ⟨s :: before, t, after, rfl, List.forall_mem_cons.2 ⟨hs, hbefore⟩, ht, he⟩

theorem exists_refusesFirst {texts : List Text} :
    (∃ e, codec.RefusesFirst texts e) ↔ ¬ ∀ t ∈ texts, codec.Encodes t := by
  induction texts with
  | nil => exact iff_of_false (fun ⟨_, _, _, _, h, _⟩ => by simp at h) fun h => h nofun
  | cons s texts ih =>
    simp only [refusesFirst_cons, exists_or, List.forall_mem_cons, not_and_or, ← ih]
    rcases codec.encodes_or_error s with hs | ⟨hs, e, he⟩
    · simp only [hs, true_and, not_true, false_or]
      refine or_iff_right fun ⟨e, hne, he⟩ => ?_
      exact not_encodes hne he hs
    · exact iff_of_true (.inl ⟨e, hs, he⟩) (.inl (not_encodes hs he))

end Codec

theorem Unencodable.first?_eq_some {label objection s : Text} {has : CodePoint → Bool}
    {gathers : Bool} {n : Nat} {run : Unencodable} :
    first? label objection has gathers n s = some run ↔
      ∃ before c after, s = before ++ c :: after ∧ before.all has = true ∧ has c = false ∧
        run = ⟨label, objection, c, n + before.length,
          if gathers then 1 + (after.takeWhile fun d => !has d).length else 1⟩ := by
  induction s generalizing n with
  | nil => simp [first?]
  | cons d rest ih =>
    have hposition : ∀ before : Text, n + (d :: before).length = n + 1 + before.length := by
      intro before
      rw [List.length_cons]
      omega
    cases hd : has d with
    | true =>
      rw [first?, if_pos hd, ih]
      constructor
      · intro h
        obtain ⟨before, c, after, rfl, hall, hc, rfl⟩ := h
        refine ⟨d :: before, c, after, rfl, ?_, hc, ?_⟩
        · rw [List.all_cons, hd, hall]
          rfl
        · rw [hposition]
      · intro h
        obtain ⟨before, c, after, hs, hall, hc, rfl⟩ := h
        cases before with
        | nil =>
          obtain ⟨rfl, -⟩ := List.cons.inj hs
          exact absurd (hd.symm.trans hc) (by decide)
        | cons b before =>
          obtain ⟨rfl, hrest⟩ := List.cons.inj hs
          refine ⟨before, c, after, hrest, (Bool.and_eq_true_iff.1 hall).2, hc, ?_⟩
          rw [hposition]
    | false =>
      rw [first?, if_neg (Bool.eq_false_iff.1 hd), Option.some_inj]
      constructor
      · intro h
        exact ⟨[], d, rest, rfl, rfl, hd, h.symm⟩
      · intro h
        obtain ⟨before, c, after, hs, hall, -, rfl⟩ := h
        cases before with
        | nil =>
          obtain ⟨rfl, rfl⟩ := List.cons.inj hs
          rfl
        | cons b before =>
          obtain ⟨rfl, -⟩ := List.cons.inj hs
          have hb := (Bool.and_eq_true_iff.1 hall).1
          exact absurd (hb.symm.trans hd) (by decide)

namespace Charset
variable {cs : Charset} {name s : Text} {run : Unencodable} {e : CodecError}

/-- The run begins at the first character of the text that the charset does not have, and goes on
for as long as such characters follow, if they are refused together. -/
def Refuses (cs : Charset) (s : Text) (run : Unencodable) : Prop :=
  ∃ before c after, s = before ++ c :: after ∧ before.all cs.has = true ∧ cs.has c = false ∧
    run = ⟨cs.label, cs.objection, c, before.length,
      if cs.gathers then 1 + (after.takeWhile fun d => !cs.has d).length else 1⟩

theorem encode_eq_error :
    cs.encode s = .error e ↔ ∃ run, cs.Refuses s run ∧ e = .unencodable run := by
  have hfirst : ∀ run, Unencodable.first? cs.label cs.objection cs.has cs.gathers 0 s = some run ↔
      cs.Refuses s run := by
    intro run
    rw [Unencodable.first?_eq_some]
    simp only [Nat.zero_add, Refuses]
  unfold encode
  simp only [← hfirst]
  cases Unencodable.first? cs.label cs.objection cs.has cs.gathers 0 s with
  | some run => simp [eq_comm]
  | none => simp

theorem blamesCharacters (cs : Charset) : cs.codec.BlamesCharacters := by
  intro s e h
  obtain ⟨run, -, rfl⟩ := encode_eq_error.1 h
  exact ⟨run, rfl⟩

theorem readsAll (cs : Charset) : cs.codec.ReadsAll := fun bytes => ⟨cs.decode bytes, rfl⟩

@[simp] theorem encodes_iff : cs.codec.Encodes s ↔ s.all cs.has = true := by
  have hencode : (∃ bytes, cs.codec.encode s = .ok bytes) ↔ s.all cs.has = true := by
    constructor
    · rintro ⟨bytes, h⟩
      exact (encode_eq_ok.1 h).1
    · exact fun h => ⟨_, encode_eq_ok.2 ⟨h, rfl⟩⟩
  rw [Codec.Encodes, hencode]
  refine or_iff_right_of_imp ?_
  rintro rfl
  rfl

theorem rejects_of_ofName? [Codecs] (h : ofName? name = some cs) :
    Codec.Rejects name s e ↔ ∃ run, cs.Refuses s run ∧ e = .unencodable run := by
  have hencode : cs.codec.encode s = .error e ↔ ∃ run, cs.Refuses s run ∧ e = .unencodable run :=
    encode_eq_error
  rw [Codec.rejects_of_found (Codec.find_of_ofName? h), hencode]
  refine and_iff_right_of_imp ?_
  rintro ⟨run, ⟨before, c, after, rfl, -⟩, -⟩ hnil
  simp at hnil

end Charset

namespace Percent
variable {safe : UInt8 → Bool} {charset s t run : Text} {codec : Codec} {e d : CodecError}

theorem encode_of_found [Codecs] (hname : Codec.find charset = .ok codec) (hs : s ≠ []) :
    encode safe charset s = (codec.encode s).map (encodeBytes safe) := by
  rw [encode, if_neg hs, hname]
  change (codec.encode s >>= fun bytes => pure (encodeBytes safe bytes)) = _
  cases codec.encode s <;> rfl

theorem encode_of_unfound [Codecs] (hname : Codec.find charset = .error d) (hs : s ≠ []) :
    encode safe charset s = .error d := by
  rw [encode, if_neg hs, hname]
  rfl

theorem encode_eq_error [Codecs] : encode safe charset s = .error e ↔
    Codec.Rejects charset s e := by
  by_cases hs : s = []
  · subst hs
    refine iff_of_false nofun ?_
    rintro (⟨-, hne⟩ | ⟨-, hne, -⟩)
    · exact absurd rfl hne
    · exact absurd rfl hne
  · cases hname : Codec.find charset with
    | error d =>
      rw [encode_of_unfound hname hs, Codec.rejects_of_unfound hname, and_iff_right hs,
        Except.error.injEq, eq_comm]
    | ok codec =>
      rw [encode_of_found hname hs, Outcome.map_eq_error, Codec.rejects_of_found hname,
        and_iff_right hs]

theorem exists_encode_iff [Codecs] (hname : Codec.find charset = .ok codec) :
    (∃ t, encode safe charset s = .ok t) ↔ codec.Encodes s := by
  by_cases hs : s = []
  · subst hs
    exact iff_of_true ⟨[], rfl⟩ (.inl rfl)
  · rw [encode_of_found hname hs, Codec.Encodes, or_iff_right hs]
    simp only [Outcome.map_eq_ok]
    exact ⟨fun ⟨_, bytes, h, _⟩ => ⟨bytes, h⟩, fun ⟨bytes, h⟩ => ⟨_, bytes, h, rfl⟩⟩

theorem exists_decodeRun (h : codec.ReadsAll) (run : Text) : ∃ t, decodeRun codec run = .ok t := by
  unfold decodeRun
  split
  · exact ⟨[], rfl⟩
  · exact h _

theorem exists_decodeAfter (h : codec.ReadsAll) (run s : Text) :
    ∃ t, decodeAfter codec run s = .ok t := by
  induction s generalizing run with
  | nil => exact exists_decodeRun h _
  | cons c rest ih =>
    rw [decodeAfter]
    split
    · exact ih _
    · obtain ⟨read, hread⟩ := exists_decodeRun h run.reverse
      obtain ⟨tail, htail⟩ := ih []
      exact ⟨_, Outcome.bind_eq_ok.2 ⟨read, hread, Outcome.bind_eq_ok.2 ⟨tail, htail, rfl⟩⟩⟩

theorem exists_decode [Codecs] (hname : Codec.find charset = .ok codec) (h : codec.ReadsAll)
    (s : Text) : ∃ t, decode charset s = .ok t := by
  unfold decode
  split
  · exact ⟨s, rfl⟩
  · obtain ⟨t, ht⟩ := exists_decodeAfter h [] s
    exact ⟨t, Outcome.bind_eq_ok.2 ⟨codec, hname, ht⟩⟩

/-- Decoding looks for the charset because of a percent sign, and for nothing else. -/
theorem decode_eq_error [Codecs] (hname : Codec.find charset = .error d) :
    decode charset s = .error e ↔ .char '%' ∈ s ∧ e = d := by
  unfold decode
  split
  · next hs => simp [hs, pure, Except.pure]
  · next hs =>
    rw [not_not] at hs
    rw [hname, and_iff_right hs]
    change Except.error d = Except.error e ↔ _
    rw [Except.error.injEq, eq_comm]

end Percent
end HttpUri
