import HttpUri.Charset.Registry
import HttpUri.Proofs.Percent.Encoded
import HttpUri.Proofs.Text.Pieces
import HttpUri.Query

/-! Reading back a formatted query string, in the charsets that extend ASCII. -/
namespace HttpUri

/-- The parameter with its texts replaced; an absent value stays absent. -/
def Parameter.map (f : Text → Text) (p : Parameter) : Parameter := ⟨f p.name, p.value.map f⟩

@[simp] theorem Parameter.map_id (p : Parameter) : p.map id = p := by
  rw [Parameter.map, Option.map_id]
  rfl

namespace Query
variable {charset : Text} {cs : Charset}

/-- The characters that an encoded name or value is written in. -/
def isWritten (c : CodePoint) : Bool :=
  c.isAlphanum || c = '-' || c = '.' || c = '_' || c = '~' || c = '%' || c = '+'

theorem isWritten_of_isHex {c : CodePoint} (h : Text.isHex c = true) :
    c ≠ '+' ∧ isWritten c = true :=
  forall_ascii (P := fun c => Text.isHex c = true → c ≠ '+' ∧ isWritten c = true) (by decide)
    (Text.isAscii_of_isHex h) h

theorem isWritten_of_byte :
    ∀ b : UInt8, (Percent.isUnreserved b || b == 0x20) = true →
      CodePoint.ofNat b.toNat ≠ '+' ∧
        (CodePoint.ofNat b.toNat = ' ' ∨ isWritten (CodePoint.ofNat b.toNat) = true) :=
  forall_byte (by decide +kernel)

theorem isAscii_of_isWritten {c : CodePoint} (h : isWritten c = true) :
    Percent.isAscii c = true := by
  simp only [isWritten, Bool.or_eq_true, decide_eq_true_eq] at h
  rcases h with (((((h | rfl) | rfl) | rfl) | rfl) | rfl) | rfl
  · exact isAscii_of_isAlphanum h
  all_goals rfl

/-- Before the plus signs go in, an encoded text holds none, and spaces only if the text does. -/
theorem mem_encode [Codecs] {s e : Text} {c : CodePoint}
    (h : Percent.encode (fun b => decide (.char ' ' ∈ s) && b == 0x20) charset s = .ok e)
    (hc : c ∈ e) :
    c ≠ '+' ∧ (c = ' ' ∨ isWritten c = true) := by
  obtain ⟨bytes, rfl⟩ := Percent.exists_bytes_of_encode h
  rcases Percent.mem_encodeBytes hc with rfl | hx | ⟨b, hb, rfl⟩
  · exact ⟨by decide, .inr rfl⟩
  · exact ⟨(isWritten_of_isHex hx).1, .inr (isWritten_of_isHex hx).2⟩
  · apply isWritten_of_byte b
    simp only [Bool.or_eq_true, Bool.and_eq_true] at hb ⊢
    exact hb.imp_right And.right

theorem mem_encodeText [Codecs] {s t : Text} (h : encodeText charset s = .ok t) {c : CodePoint}
    (hc : c ∈ t) :
    isWritten c = true := by
  obtain ⟨e, he, h⟩ := Outcome.bind_eq_ok.1 h
  have heq := Except.ok.inj h
  subst heq
  obtain ⟨d, hd, rfl⟩ := List.mem_map.1 hc
  split
  · rfl
  · next hne => exact (mem_encode he hd).2.resolve_left hne

/-- An encoded text reads as what was there before the plus signs went in. -/
theorem exists_encode_of_encodeText [Codecs] {s t : Text} (h : encodeText charset s = .ok t) :
    ∃ e, Percent.encode (fun b => decide (.char ' ' ∈ s) && b == 0x20) charset s = .ok e ∧
      (∀ c ∈ e, Percent.isAscii c = true) ∧
      decodeText charset t = Percent.decode charset e := by
  obtain ⟨e, he, h⟩ := Outcome.bind_eq_ok.1 h
  have heq := Except.ok.inj h
  subst heq
  have hback : (e.map fun c : CodePoint => if c = ' ' then .char '+' else c).map
      (fun c : CodePoint => if c = '+' then .char ' ' else c) = e := by
    rw [List.map_map, List.map_congr_left (g := id), List.map_id]
    intro c hc
    have hne := (mem_encode he hc).1
    by_cases hs : c = ' '
    · simp [hs]
    · simp [hs, hne]
  refine ⟨e, he, fun c hc => ?_, congrArg (Percent.decode charset) hback⟩
  rcases (mem_encode he hc).2 with rfl | hw
  · rfl
  · exact isAscii_of_isWritten hw

/-- What is made of each text that is encoded and read again. -/
def Rereads [Codecs] (charset : Text) (f : Text → Text) : Prop :=
  ∀ s t, encodeText charset s = .ok t → decodeText charset t = .ok (f s)

theorem rereads_id [Codecs] (hcs : Charset.ofName? charset = some cs)
    (ha : cs.extendsAscii = true) :
    Rereads charset id := by
  intro s t h
  obtain ⟨e, he, hascii, hdecode⟩ := exists_encode_of_encodeText h
  obtain ⟨hhas, hbytes⟩ := (Percent.encode_eq_ok hcs).1 he
  have hunsafe : (decide (.char ' ' ∈ s) && (0x25 : UInt8) == 0x20) = false := Bool.and_false _
  rw [hdecode, Percent.decode_eq_ok hcs ha hascii, ← hbytes,
    Percent.decodeBytes_encodeBytes hunsafe, Charset.decode_bytes hhas]
  rfl

theorem not_mem_encodeText [Codecs] {s t : Text} (h : encodeText charset s = .ok t) {c : CodePoint}
    (hc : isWritten c = false) : c ∉ t := by
  intro ht
  rw [mem_encodeText h ht] at hc
  exact nomatch hc

/-- The equals sign that was put behind the name is the first one of the piece. -/
theorem parsePiece_formatPiece [Codecs] {f : Text → Text} (hf : Rereads charset f) {p : Parameter}
    {piece : Text} (h : formatPiece charset p = .ok piece) :
    parsePiece charset piece = .ok (p.map f) := by
  obtain ⟨name, value⟩ := p
  obtain ⟨n, hn, h⟩ := Outcome.bind_eq_ok.1 h
  have hsep : .char '=' ∉ n := not_mem_encodeText hn rfl
  have hname := hf name n hn
  cases value with
  | none =>
    have heq := Except.ok.inj h
    subst heq
    unfold parsePiece
    rw [Text.cutFirst_eq_none.2 hsep]
    exact Outcome.bind_eq_ok.2 ⟨f name, hname, rfl⟩
  | some value =>
    obtain ⟨v, hv, h⟩ := Outcome.bind_eq_ok.1 h
    have heq := Except.ok.inj h
    subst heq
    have hvalue := hf value v hv
    unfold parsePiece
    rw [Text.cutFirst_eq_some.2 ⟨rfl, hsep⟩]
    exact Outcome.bind_eq_ok.2 ⟨f value, hvalue, Outcome.bind_eq_ok.2 ⟨f name, hname, rfl⟩⟩

theorem encodeText_eq_nil_iff [Codecs] (hcs : Charset.ofName? charset = some cs) {s t : Text}
    (h : encodeText charset s = .ok t) : t = [] ↔ s = [] := by
  obtain ⟨e, he, h⟩ := Outcome.bind_eq_ok.1 h
  have heq := Except.ok.inj h
  subst heq
  rw [List.map_eq_nil_iff, Percent.encode_eq_nil_iff hcs he]

theorem formatPiece_eq_nil_iff [Codecs] (hcs : Charset.ofName? charset = some cs) {p : Parameter}
    {piece : Text} (h : formatPiece charset p = .ok piece) : piece = [] ↔ p = ⟨[], none⟩ := by
  obtain ⟨name, value⟩ := p
  obtain ⟨n, hn, h⟩ := Outcome.bind_eq_ok.1 h
  cases value with
  | none =>
    have heq := Except.ok.inj h
    subst heq
    simp [encodeText_eq_nil_iff hcs hn]
  | some value =>
    obtain ⟨v, -, h⟩ := Outcome.bind_eq_ok.1 h
    have heq := Except.ok.inj h
    subst heq
    simp

theorem mem_formatPiece [Codecs] {p : Parameter} {piece : Text}
    (h : formatPiece charset p = .ok piece)
    {c : CodePoint} (hc : c ∈ piece) : isWritten c = true ∨ c = '=' := by
  obtain ⟨name, value⟩ := p
  obtain ⟨n, hn, h⟩ := Outcome.bind_eq_ok.1 h
  cases value with
  | none =>
    have heq := Except.ok.inj h
    subst heq
    exact .inl (mem_encodeText hn hc)
  | some value =>
    obtain ⟨v, hv, h⟩ := Outcome.bind_eq_ok.1 h
    have heq := Except.ok.inj h
    subst heq
    rcases List.mem_append.1 hc with hc | hc
    · exact .inl (mem_encodeText hn hc)
    · rcases List.mem_cons.1 hc with rfl | hc
      · exact .inr rfl
      · exact .inl (mem_encodeText hv hc)

theorem not_mem_formatPiece [Codecs] {p : Parameter} {piece : Text}
    (h : formatPiece charset p = .ok piece) : .char '&' ∉ piece := by
  intro hm
  rcases mem_formatPiece h hm with hw | he
  · exact absurd hw (by decide)
  · exact absurd he (by decide)

theorem mapM_parsePiece_map [Codecs] (hcs : Charset.ofName? charset = some cs) {f : Text → Text}
    (hf : Rereads charset f) {params : List Parameter} {pieces : List Text}
    (h : List.Forall₂ (fun p piece => formatPiece charset p = .ok piece) params pieces) :
    (pieces.filter (· ≠ [])).mapM (parsePiece charset) =
      .ok ((params.filter (· ≠ ⟨[], none⟩)).map (·.map f)) := by
  rw [Outcome.mapM_eq_ok]
  induction h with
  | nil => exact .nil
  | @cons p piece params pieces hp _ ih =>
    have hempty := formatPiece_eq_nil_iff hcs hp
    by_cases he : piece = []
    · rw [List.filter_cons_of_neg (by simpa using he),
        List.filter_cons_of_neg (by simpa using hempty.1 he)]
      exact ih
    · rw [List.filter_cons_of_pos (by simpa using he),
        List.filter_cons_of_pos (by simpa using mt hempty.2 he)]
      exact .cons (parsePiece_formatPiece hf hp) ih

theorem mapM_parsePiece [Codecs] (hcs : Charset.ofName? charset = some cs)
    (ha : cs.extendsAscii = true)
    {params : List Parameter} {pieces : List Text}
    (h : List.Forall₂ (fun p piece => formatPiece charset p = .ok piece) params pieces) :
    (pieces.filter (· ≠ [])).mapM (parsePiece charset) =
      .ok (params.filter (· ≠ ⟨[], none⟩)) := by
  rw [mapM_parsePiece_map hcs (rereads_id hcs ha) h, funext Parameter.map_id, List.map_id']

theorem parse_join [Codecs] {pieces : List Text} (hsep : ∀ piece ∈ pieces, .char '&' ∉ piece) :
    parse (Text.join [.char '&'] pieces) charset =
      (pieces.filter (· ≠ [])).mapM (parsePiece charset) := by
  rw [parse, Text.join]
  by_cases hnil : pieces = []
  · subst hnil
    rfl
  · rw [List.splitOn_intercalate (.char '&') hsep hnil]

/-- Parameters of which each has a name or a value come back from their query string as their texts
are reread. -/
theorem parse_of_format_map [Codecs] (hcs : Charset.ofName? charset = some cs) {f : Text → Text}
    (hf : Rereads charset f) {params : List Parameter} (hne : ⟨[], none⟩ ∉ params) {s : Text}
    (h : format params charset = .ok s) :
    parse s charset = .ok (params.map (·.map f)) := by
  obtain ⟨pieces, hp, h⟩ := Outcome.bind_eq_ok.1 h
  obtain rfl : Text.join [.char '&'] pieces = s := Except.ok.inj h
  have hsep : ∀ piece ∈ pieces, .char '&' ∉ piece := by
    intro piece hm
    obtain ⟨p, -, hp⟩ := Outcome.exists_of_mem_mapM hp hm
    exact not_mem_formatPiece hp
  have hall : params.filter (· ≠ ⟨[], none⟩) = params :=
    List.filter_eq_self.2 fun p hm => decide_eq_true fun heq => hne (heq ▸ hm)
  rw [parse_join hsep, mapM_parsePiece_map hcs hf (Outcome.mapM_eq_ok.1 hp), hall]

theorem parse_of_format [Codecs] (hcs : Charset.ofName? charset = some cs)
    (ha : cs.extendsAscii = true)
    {params : List Parameter} (hne : ⟨[], none⟩ ∉ params) {s : Text}
    (h : format params charset = .ok s) : parse s charset = .ok params := by
  rw [parse_of_format_map hcs (rereads_id hcs ha) hne h, funext Parameter.map_id, List.map_id']

/-- A formatted query string reads as its parameters, all but those without a name and a value. -/
theorem parse_format [Codecs] (hcs : Charset.ofName? charset = some cs)
    (ha : cs.extendsAscii = true)
    {params : List Parameter} {s : Text} (h : format params charset = .ok s) :
    parse s charset = .ok (params.filter (· ≠ ⟨[], none⟩)) := by
  obtain ⟨pieces, hp, h⟩ := Outcome.bind_eq_ok.1 h
  have heq := Except.ok.inj h
  subst heq
  have hpieces := Outcome.mapM_eq_ok.1 hp
  have hsep : ∀ piece ∈ pieces, .char '&' ∉ piece := by
    intro piece hm
    obtain ⟨p, -, hp⟩ := Outcome.exists_of_mem_mapM hp hm
    exact not_mem_formatPiece hp
  rw [← mapM_parsePiece hcs ha hpieces, parse, Text.join]
  by_cases hnil : pieces = []
  · subst hnil
    rfl
  · rw [List.splitOn_intercalate (.char '&') hsep hnil]

/-- Separators, signs, spaces and letters beyond ASCII in a Latin-1 query, and an empty value beside
an absent one. -/
theorem parse_format_latin1 :
    let params : List Parameter :=
      [⟨"a b".points, some "ü&=%+".points⟩, ⟨[], none⟩, ⟨[], some []⟩, ⟨[.char 'x'], none⟩]
    ∃ s, format params "latin-1".points = .ok s ∧
      parse s "latin-1".points = .ok (params.filter (· ≠ ⟨[], none⟩)) := by
  intro params
  have hcs : Charset.ofName? "latin-1".points = some .latin1 := rfl
  exact ⟨_, rfl, parse_format hcs rfl rfl⟩

end Query
end HttpUri
