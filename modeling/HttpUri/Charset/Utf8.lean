import HttpUri.Charset.Machine

/-! UTF-8 with replacement: each longest beginning of a character that goes no further, and each
byte that can begin none, reads as one replacement character. -/
namespace HttpUri.Utf8

/-- What has been read of a character: its bits so far, how many bytes are missing, and the least
and greatest next byte. -/
inductive State
  | idle
  | within (bits missing least greatest : Nat)
  deriving DecidableEq

/-- The first byte of a character, or a byte that can be none. The bounds on the second byte exclude
overlong forms, surrogates and numbers above U+10FFFF. -/
def first (b : Nat) : Text × State :=
  if b < 0x80 then ([↑(Char.ofNat b)], .idle)
  else if b < 0xC2 then ([replacement], .idle)
  else if b < 0xE0 then ([], .within (b - 0xC0) 1 0x80 0xBF)
  else if b = 0xE0 then ([], .within 0 2 0xA0 0xBF)
  else if b = 0xED then ([], .within 0xD 2 0x80 0x9F)
  else if b < 0xF0 then ([], .within (b - 0xE0) 2 0x80 0xBF)
  else if b = 0xF0 then ([], .within 0 3 0x90 0xBF)
  else if b < 0xF4 then ([], .within (b - 0xF0) 3 0x80 0xBF)
  else if b = 0xF4 then ([], .within 4 3 0x80 0x8F)
  else ([replacement], .idle)

/-- One more byte. A byte out of bounds ends the character begun and is taken as a first one. -/
def step : State → UInt8 → Text × State
  | .idle, b => first b.toNat
  | .within bits missing least greatest, b =>
    if least ≤ b.toNat ∧ b.toNat ≤ greatest then
      let bits := bits * 64 + (b.toNat - 0x80)
      if missing = 1 then ([↑(Char.ofNat bits)], .idle)
      else ([], .within bits (missing - 1) 0x80 0xBF)
    else
      let (out, next) := first b.toNat
      (replacement :: out, next)

def finish : State → Text
  | .idle => []
  | .within .. => [replacement]

def reader : ByteReader State := ⟨.idle, step, finish⟩

theorem readFrom_within {bits missing least greatest : Nat} {b : UInt8} (rest : List UInt8)
    (hl : least ≤ b.toNat) (hg : b.toNat ≤ greatest) :
    reader.readFrom (.within bits missing least greatest) (b :: rest) =
      if missing = 1 then
        ↑(Char.ofNat (bits * 64 + (b.toNat - 0x80))) :: reader.readFrom .idle rest
      else
        reader.readFrom (.within (bits * 64 + (b.toNat - 0x80)) (missing - 1) 0x80 0xBF) rest := by
  simp only [ByteReader.readFrom, reader, step, hl, hg, and_self, if_true]
  split <;> rfl

theorem readFrom_idle (b : UInt8) (rest : List UInt8) :
    reader.readFrom .idle (b :: rest) =
      (first b.toNat).1 ++ reader.readFrom (first b.toNat).2 rest := rfl

theorem toNat_continuation (n : Nat) : (UInt8.ofNat (n % 64 + 128)).toNat = n % 64 + 128 := by
  have hlt : n % 64 + 128 < 256 := by omega
  simp [Nat.mod_eq_of_lt hlt]

theorem readFrom_continuation (bits missing n : Nat) (rest : List UInt8) :
    reader.readFrom (.within bits missing 0x80 0xBF) (UInt8.ofNat (n % 64 + 128) :: rest) =
      if missing = 1 then ↑(Char.ofNat (bits * 64 + n % 64)) :: reader.readFrom .idle rest
      else reader.readFrom (.within (bits * 64 + n % 64) (missing - 1) 0x80 0xBF) rest := by
  have hn := toNat_continuation n
  have hl : 0x80 ≤ (UInt8.ofNat (n % 64 + 128)).toNat := by omega
  have hg : (UInt8.ofNat (n % 64 + 128)).toNat ≤ 0xBF := by omega
  rw [readFrom_within rest hl hg, hn, Nat.add_sub_cancel]

theorem readFrom_two {n : Nat} (hl : 0x80 ≤ n) (hu : n < 0x800) (rest : List UInt8) :
    reader.readFrom .idle
        (UInt8.ofNat (n / 64 % 32 + 192) :: UInt8.ofNat (n % 64 + 128) :: rest) =
      ↑(Char.ofNat n) :: reader.readFrom .idle rest := by
  have hlead : (UInt8.ofNat (n / 64 % 32 + 192)).toNat = n / 64 + 192 := by
    simp
    omega
  have hfirst : first (n / 64 + 192) = ([], .within (n / 64) 1 0x80 0xBF) := by
    unfold first
    rw [if_neg (by omega), if_neg (by omega), if_pos (by omega)]
    simp
  have hbits : n / 64 * 64 + n % 64 = n := by omega
  rw [readFrom_idle, hlead, hfirst, readFrom_continuation, if_pos rfl, hbits]
  rfl

theorem readFrom_three {n : Nat} (hl : 0x800 ≤ n) (hu : n < 0x10000)
    (hv : n < 0xD800 ∨ 0xDFFF < n) (rest : List UInt8) :
    reader.readFrom .idle
        (UInt8.ofNat (n / 4096 % 16 + 224) :: UInt8.ofNat (n / 64 % 64 + 128) ::
          UInt8.ofNat (n % 64 + 128) :: rest) =
      ↑(Char.ofNat n) :: reader.readFrom .idle rest := by
  have hlead : (UInt8.ofNat (n / 4096 % 16 + 224)).toNat = n / 4096 + 224 := by
    simp
    omega
  have hnext := toNat_continuation (n / 64)
  -- The first byte bounds the second one so that it fits the numbers of three bytes.
  obtain ⟨least, greatest, hfirst, hleast, hgreatest⟩ : ∃ least greatest,
      first (n / 4096 + 224) = ([], .within (n / 4096) 2 least greatest) ∧
        least ≤ n / 64 % 64 + 128 ∧ n / 64 % 64 + 128 ≤ greatest := by
    unfold first
    rw [if_neg (by omega), if_neg (by omega), if_neg (by omega)]
    split
    · exact ⟨_, _, by rw [show n / 4096 = 0 by omega], by omega, by omega⟩
    · split
      · exact ⟨_, _, by rw [show n / 4096 = 0xD by omega], by omega, by omega⟩
      · rw [if_pos (by omega)]
        exact ⟨_, _, by rw [Nat.add_sub_cancel], by omega, by omega⟩
  have hbits : (n / 4096 * 64 + n / 64 % 64) * 64 + n % 64 = n := by omega
  rw [readFrom_idle, hlead, hfirst, readFrom_within _ (by omega) (by omega), hnext,
    Nat.add_sub_cancel, if_neg (by decide), readFrom_continuation, if_pos rfl, hbits]
  rfl

theorem readFrom_four {n : Nat} (hl : 0x10000 ≤ n) (hu : n < 0x110000) (rest : List UInt8) :
    reader.readFrom .idle
        (UInt8.ofNat (n / 262144 % 8 + 240) :: UInt8.ofNat (n / 4096 % 64 + 128) ::
          UInt8.ofNat (n / 64 % 64 + 128) :: UInt8.ofNat (n % 64 + 128) :: rest) =
      ↑(Char.ofNat n) :: reader.readFrom .idle rest := by
  have hlead : (UInt8.ofNat (n / 262144 % 8 + 240)).toNat = n / 262144 + 240 := by
    simp
    omega
  have hnext := toNat_continuation (n / 4096)
  obtain ⟨least, greatest, hfirst, hleast, hgreatest⟩ : ∃ least greatest,
      first (n / 262144 + 240) = ([], .within (n / 262144) 3 least greatest) ∧
        least ≤ n / 4096 % 64 + 128 ∧ n / 4096 % 64 + 128 ≤ greatest := by
    unfold first
    rw [if_neg (by omega), if_neg (by omega), if_neg (by omega), if_neg (by omega),
      if_neg (by omega), if_neg (by omega)]
    split
    · exact ⟨_, _, by rw [show n / 262144 = 0 by omega], by omega, by omega⟩
    · split
      · exact ⟨_, _, by rw [Nat.add_sub_cancel], by omega, by omega⟩
      · rw [if_pos (by omega)]
        exact ⟨_, _, by rw [show n / 262144 = 4 by omega], by omega, by omega⟩
  have hbits : ((n / 262144 * 64 + n / 4096 % 64) * 64 + n / 64 % 64) * 64 + n % 64 = n := by
    omega
  rw [readFrom_idle, hlead, hfirst, readFrom_within _ (by omega) (by omega), hnext,
    Nat.add_sub_cancel, if_neg (by decide), readFrom_continuation, if_neg (by decide),
    readFrom_continuation, if_pos rfl, hbits]
  rfl

theorem readFrom_encodeChar (c : Char) (rest : List UInt8) :
    reader.readFrom .idle (String.utf8EncodeChar c ++ rest) = ↑c :: reader.readFrom .idle rest := by
  have hc : Char.ofNat c.toNat = c := Char.ofNat_toNat c
  have hv : c.toNat < 0xD800 ∨ 0xDFFF < c.toNat ∧ c.toNat < 0x110000 := c.valid
  have ht : c.val.toNat = c.toNat := rfl
  unfold String.utf8EncodeChar
  simp only [ht]
  split
  · next h =>
    have hone : (UInt8.ofNat c.toNat).toNat = c.toNat := by
      simp
      omega
    have hfirst : first c.toNat = ([↑c], .idle) := by
      rw [first, if_pos (by omega), hc]
    change reader.readFrom .idle (UInt8.ofNat c.toNat :: rest) = _
    rw [readFrom_idle, hone, hfirst]
    rfl
  · split
    · have htwo := readFrom_two (n := c.toNat) (by omega) (by omega) rest
      rw [hc] at htwo
      exact htwo
    · split
      · have hthree := readFrom_three (n := c.toNat) (by omega) (by omega) (by omega) rest
        rw [hc] at hthree
        exact hthree
      · have hfour := readFrom_four (n := c.toNat) (by omega) (by omega) rest
        rw [hc] at hfour
        exact hfour

/-- Encoded text reads back. -/
theorem read_encode (s : List Char) :
    reader.read (s.flatMap String.utf8EncodeChar) = s.map .char := by
  suffices h : reader.readFrom .idle (s.flatMap String.utf8EncodeChar) = s.map .char from h
  induction s with
  | nil => rfl
  | cons c rest ih => rw [List.flatMap_cons, readFrom_encodeChar, ih, List.map_cons]

end HttpUri.Utf8
