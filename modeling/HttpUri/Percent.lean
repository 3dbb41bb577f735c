import HttpUri.Charset.Codec

/-! Percent-encoding: bytes as ASCII characters or as a percent sign with two digits. -/
namespace HttpUri.Percent

def isUnreserved (b : UInt8) : Bool :=
  let c := CodePoint.ofNat b.toNat
  c.isAlphanum || c = '-' || c = '.' || c = '_' || c = '~'

/-- A byte that is neither unreserved nor safe is written as a percent sign and two digits. -/
def encodeByte (safe : UInt8 → Bool) (b : UInt8) : Text :=
  if isUnreserved b || safe b then [CodePoint.ofNat b.toNat]
  else [.char '%', Text.capitalHexDigit (b.toNat / 16), Text.capitalHexDigit (b.toNat % 16)]

def encodeBytes (safe : UInt8 → Bool) (bytes : List UInt8) : Text :=
  bytes.flatMap (encodeByte safe)

def encode [Codecs] (safe : UInt8 → Bool) (charset : Text) (s : Text) : Except CodecError Text := do
  if s = [] then return []
  let codec ← Codec.find charset
  let bytes ← codec.encode s
  return encodeBytes safe bytes

/-- The byte that two hexadecimal digits stand for. -/
def byte? (high low : CodePoint) : Option UInt8 :=
  match Text.hexValue? high, Text.hexValue? low with
  | some x, some y => some (UInt8.ofNat (16 * x + y))
  | _, _ => none

/-- The bytes of an ASCII text. A percent sign without two digits behind it stands for itself. -/
def decodeBytes : Text → List UInt8
  | [] => []
  | '%' :: high :: low :: tail =>
    match byte? high low with
    | some b => b :: decodeBytes tail
    | none => 0x25 :: decodeBytes (high :: low :: tail)
  | c :: rest => UInt8.ofNat c.toNat :: decodeBytes rest

def isAscii (c : CodePoint) : Bool := decide (c.toNat < 0x80)

def decodeRun (codec : Codec) (run : Text) : Except CodecError Text :=
  if run = [] then .ok [] else codec.decode (decodeBytes run)

/-- Decodes the rest of a text after a run of ASCII characters, last one first. Each longest such
run is read as a whole; other characters stand for themselves. -/
def decodeAfter (codec : Codec) (run : Text) : Text → Except CodecError Text
  | [] => decodeRun codec run.reverse
  | c :: rest =>
    if isAscii c then decodeAfter codec (c :: run) rest
    else do
      let read ← decodeRun codec run.reverse
      let tail ← decodeAfter codec [] rest
      return read ++ c :: tail

/-- The text that a percent-encoded one stands for in a charset given by name. Without a percent
sign it stands for itself, and needs no charset. -/
def decode [Codecs] (charset : Text) (s : Text) : Except CodecError Text := do
  if .char '%' ∉ s then return s
  let codec ← Codec.find charset
  decodeAfter codec [] s

@[simp] theorem toNat_ofByte (b : UInt8) : (CodePoint.ofNat b.toNat).toNat = b.toNat := by
  have hb : b.toNat < 256 := b.toNat_lt
  exact CodePoint.toNat_ofNat_of_isValidChar (.inl (by omega))

theorem encodeBytes_append (safe : UInt8 → Bool) (a b : List UInt8) :
    encodeBytes safe (a ++ b) = encodeBytes safe a ++ encodeBytes safe b :=
  List.flatMap_append

theorem decodeBytes_cons_of_ne {c : CodePoint} (h : c ≠ '%') (rest : Text) :
    decodeBytes (c :: rest) = UInt8.ofNat c.toNat :: decodeBytes rest := by
  rw [decodeBytes]
  rintro high low tail rfl
  exact absurd rfl h

theorem decodeBytes_of_byte {high low : CodePoint} {b : UInt8} (h : byte? high low = some b)
    (tail : Text) : decodeBytes (.char '%' :: high :: low :: tail) = b :: decodeBytes tail := by
  rw [decodeBytes, h]

theorem decodeBytes_of_stray {rest : Text}
    (h : ∀ high low tail, rest = high :: low :: tail → byte? high low = none) :
    decodeBytes (.char '%' :: rest) = 0x25 :: decodeBytes rest := by
  match rest with
  | [] => rfl
  | [c] => rfl
  | high :: low :: tail => rw [decodeBytes, h _ _ _ rfl]

theorem decodeBytes_encodeByte {safe : UInt8 → Bool} {b : UInt8} (h : b = 0x25 → safe b = false)
    (rest : Text) : decodeBytes (encodeByte safe b ++ rest) = b :: decodeBytes rest := by
  have hb : b.toNat < 256 := b.toNat_lt
  unfold encodeByte
  split
  · next hs =>
    have hne : CodePoint.ofNat b.toNat ≠ '%' := by
      intro hc
      have h25 : b = 0x25 := by
        have hn := toNat_ofByte b
        rw [hc] at hn
        exact UInt8.toNat_inj.1 hn.symm
      rw [h h25, h25] at hs
      exact absurd hs (by decide)
    rw [List.cons_append, List.nil_append, decodeBytes_cons_of_ne hne, toNat_ofByte,
      UInt8.ofNat_toNat]
  · refine decodeBytes_of_byte ?_ rest
    rw [byte?, Text.hexValue?_capitalHexDigit _ (by omega),
      Text.hexValue?_capitalHexDigit _ (by omega)]
    simp only [show 16 * (b.toNat / 16) + b.toNat % 16 = b.toNat by omega, UInt8.ofNat_toNat]

/-- Encoded bytes read back, whatever follows, if no safe percent sign is among them. -/
theorem decodeBytes_encodeBytes_append {safe : UInt8 → Bool} {bytes : List UInt8}
    (h : ∀ b ∈ bytes, b = 0x25 → safe b = false) (rest : Text) :
    decodeBytes (encodeBytes safe bytes ++ rest) = bytes ++ decodeBytes rest := by
  induction bytes with
  | nil => rfl
  | cons b tail ih =>
    obtain ⟨hb, htail⟩ := List.forall_mem_cons.1 h
    rw [encodeBytes, List.flatMap_cons, List.append_assoc, decodeBytes_encodeByte hb,
      ← encodeBytes, ih htail, List.cons_append]

theorem decodeBytes_encodeBytes {safe : UInt8 → Bool} (h : safe 0x25 = false)
    (bytes : List UInt8) : decodeBytes (encodeBytes safe bytes) = bytes := by
  have hread := decodeBytes_encodeBytes_append (fun b (_ : b ∈ bytes) hb => hb ▸ h) []
  rwa [List.append_nil, decodeBytes, List.append_nil] at hread

theorem decodeAfter_of_ascii (codec : Codec) (run : Text) {s : Text} (h : s.all isAscii = true) :
    decodeAfter codec run s = decodeRun codec (run.reverse ++ s) := by
  induction s generalizing run with
  | nil => simp [decodeAfter]
  | cons c rest ih =>
    simp only [List.all_cons, Bool.and_eq_true] at h
    simp [decodeAfter, h.1, ih _ h.2]

end HttpUri.Percent
