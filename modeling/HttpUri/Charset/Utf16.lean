import HttpUri.Charset.Machine

/-! UTF-16 with the low byte of each unit first. A unit without its partner, and a unit cut off at
the end, read as one replacement character. -/
namespace HttpUri.Utf16

def unitBytes (u : Nat) : List UInt8 := [UInt8.ofNat (u % 256), UInt8.ofNat (u / 256)]

/-- The bytes of a character: one unit, or two that are partners above U+FFFF. -/
def encodeChar (c : Char) : List UInt8 :=
  if c.toNat < 0x10000 then unitBytes c.toNat
  else
    let n := c.toNat - 0x10000
    unitBytes (0xD800 + n / 1024) ++ unitBytes (0xDC00 + n % 1024)

/-- What has been read: an upper unit that waits for its partner, and the low byte of a unit. -/
structure State where
  upper : Option Nat
  low : Option Nat
  deriving DecidableEq

/-- A unit that follows no waiting one. -/
def first (u : Nat) : Text × State :=
  if 0xD800 ≤ u ∧ u < 0xDC00 then ([], ⟨some u, none⟩)
  else if 0xDC00 ≤ u ∧ u < 0xE000 then ([replacement], ⟨none, none⟩)
  else ([↑(Char.ofNat u)], ⟨none, none⟩)

def step (s : State) (b : UInt8) : Text × State :=
  match s.low with
  | none => ([], ⟨s.upper, some b.toNat⟩)
  | some low =>
    let u := low + 256 * b.toNat
    match s.upper with
    | none => first u
    | some upper =>
      if 0xDC00 ≤ u ∧ u < 0xE000 then
        ([↑(Char.ofNat (0x10000 + (upper - 0xD800) * 1024 + (u - 0xDC00)))], ⟨none, none⟩)
      else
        let (out, next) := first u
        (replacement :: out, next)

/-- All bytes that are left over at the end read as one replacement character. -/
def finish (s : State) : Text :=
  if s = ⟨none, none⟩ then [] else [replacement]

def reader : ByteReader State := ⟨⟨none, none⟩, step, finish⟩

theorem readFrom_unitBytes {upper : Option Nat} {u : Nat} (hu : u < 0x10000) (rest : List UInt8) :
    reader.readFrom ⟨upper, none⟩ (unitBytes u ++ rest) =
      (match upper with
        | none => (first u).1 ++ reader.readFrom (first u).2 rest
        | some n =>
          if 0xDC00 ≤ u ∧ u < 0xE000 then
            ↑(Char.ofNat (0x10000 + (n - 0xD800) * 1024 + (u - 0xDC00))) ::
              reader.readFrom ⟨none, none⟩ rest
          else replacement :: ((first u).1 ++ reader.readFrom (first u).2 rest)) := by
  have hlow : (UInt8.ofNat (u % 256)).toNat = u % 256 := by simp
  have hhigh : (UInt8.ofNat (u / 256)).toNat = u / 256 := by simp; omega
  simp only [unitBytes, List.cons_append, List.nil_append, ByteReader.readFrom, reader, step, hlow,
    hhigh, show u % 256 + 256 * (u / 256) = u by omega]
  cases upper with
  | none => rfl
  | some n =>
    dsimp only
    split <;> rfl

theorem readFrom_pair {u v : Nat} (hu : 0xD800 ≤ u ∧ u < 0xDC00) (hv : 0xDC00 ≤ v ∧ v < 0xE000)
    (rest : List UInt8) :
    reader.readFrom ⟨none, none⟩ (unitBytes u ++ (unitBytes v ++ rest)) =
      ↑(Char.ofNat (0x10000 + (u - 0xD800) * 1024 + (v - 0xDC00))) ::
        reader.readFrom ⟨none, none⟩ rest := by
  have hf : first u = ([], ⟨some u, none⟩) := by rw [first, if_pos hu]
  rw [readFrom_unitBytes (by omega)]
  simp only [hf, List.nil_append]
  rw [readFrom_unitBytes (by omega)]
  simp only [if_pos hv]

theorem readFrom_encodeChar (c : Char) (rest : List UInt8) :
    reader.readFrom ⟨none, none⟩ (encodeChar c ++ rest) =
      ↑c :: reader.readFrom ⟨none, none⟩ rest := by
  have hc : Char.ofNat c.toNat = c := Char.ofNat_toNat c
  have hv : c.toNat < 0xD800 ∨ 0xDFFF < c.toNat ∧ c.toNat < 0x110000 := c.valid
  by_cases h : c.toNat < 0x10000
  · have hf : first c.toNat = ([↑c], ⟨none, none⟩) := by
      rw [first, if_neg (by omega), if_neg (by omega), hc]
    rw [encodeChar, if_pos h, readFrom_unitBytes h]
    simp only [hf, List.cons_append, List.nil_append]
  · obtain ⟨n, hn⟩ : ∃ n, c.toNat = 0x10000 + n := ⟨c.toNat - 0x10000, by omega⟩
    have he : encodeChar c = unitBytes (0xD800 + n / 1024) ++ unitBytes (0xDC00 + n % 1024) := by
      rw [encodeChar, if_neg h, hn, Nat.add_sub_cancel_left]
    rw [he, List.append_assoc, readFrom_pair (by omega) (by omega), Nat.add_sub_cancel_left,
      Nat.add_sub_cancel_left, show 0x10000 + n / 1024 * 1024 + n % 1024 = c.toNat by omega, hc]

/-- Encoded text reads back. -/
theorem read_encode (s : List Char) : reader.read (s.flatMap encodeChar) = s.map .char := by
  suffices h : reader.readFrom ⟨none, none⟩ (s.flatMap encodeChar) = s.map .char from h
  induction s with
  | nil => rfl
  | cons c rest ih => rw [List.flatMap_cons, readFrom_encodeChar, ih, List.map_cons]

end HttpUri.Utf16
