import HttpUri.Charset.Name
import HttpUri.Number.Numeral
import HttpUri.Text.Quoted

/-! Codecs: how texts are written in a charset given by name and read again, and how either fails.
-/
namespace HttpUri

/-- A run of neighbouring characters that a charset does not have: the first of them, its position
in the text, and their number, with what the charset is called and what it says against them. -/
structure Unencodable where
  label : Text
  objection : Text
  char : CodePoint
  position : Nat
  count : Nat
  deriving DecidableEq, Repr

/-- The first run of characters of a kind that is missing, `position` characters into a text. If
runs are not gathered, they have one character each. -/
def Unencodable.first? (label objection : Text) (has : CodePoint → Bool) (gathers : Bool)
    (position : Nat) : Text → Option Unencodable
  | [] => none
  | c :: rest =>
    if has c then first? label objection has gathers (position + 1) rest
    else some ⟨label, objection, c, position,
      if gathers then 1 + (rest.takeWhile (!has ·)).length else 1⟩

theorem Unencodable.first?_eq_none {label objection : Text} {has : CodePoint → Bool}
    {gathers : Bool} {n : Nat} {s : Text} :
    first? label objection has gathers n s = none ↔ s.all has = true := by
  induction s generalizing n with
  | nil => simp [first?]
  | cons c rest ih => by_cases h : has c = true <;> simp [first?, h, ih]

/-- Why a text cannot be written in a charset, or bytes cannot be read. -/
inductive CodecError
  | unknownCharset (name : Text)
  /-- The name is that of an encoding, but not of one for texts. -/
  | notText (name method : Text)
  | nulInName
  | unencodable (run : Unencodable)
  | undecodable (message : Text)
  /-- The codec gives up and blames no character and no byte. -/
  | failed (message : Text)
  deriving DecidableEq, Repr

/-- How texts are written as bytes, and how bytes are read with those that have no meaning
replaced. -/
structure Codec where
  encode : Text → Except CodecError (List UInt8)
  decode : List UInt8 → Except CodecError Text

/-- The codecs that are registered beside those of the built-in charsets, by name. -/
class Codecs where
  find? : Text → Option Codec

namespace Charset

def label : Charset → Text
  | .utf8 => "utf-8".points
  | .latin1 => "latin-1".points
  | .ascii => "ascii".points
  | .windows1252 => "charmap".points
  | .utf16le => "utf-16-le".points

/-- What the charset has to say against a character. -/
def objection : Charset → Text
  | .utf8 | .utf16le => "surrogates not allowed".points
  | .latin1 => "ordinal not in range(256)".points
  | .ascii => "ordinal not in range(128)".points
  | .windows1252 => "character maps to <undefined>".points

/-- Neighbouring characters that the charset does not have are refused together. -/
def gathers : Charset → Bool
  | .utf16le => false
  | .utf8 | .latin1 | .ascii | .windows1252 => true

def encode (cs : Charset) (s : Text) : Except CodecError (List UInt8) :=
  match Unencodable.first? cs.label cs.objection cs.has cs.gathers 0 s with
  | some run => .error (.unencodable run)
  | none => .ok (cs.bytes s)

def codec (cs : Charset) : Codec := ⟨cs.encode, fun bytes => .ok (cs.decode bytes)⟩

theorem encode_eq_ok {cs : Charset} {s : Text} {b : List UInt8} :
    cs.encode s = .ok b ↔ s.all cs.has = true ∧ cs.bytes s = b := by
  have hnone : Unencodable.first? cs.label cs.objection cs.has cs.gathers 0 s = none ↔
      s.all cs.has = true := Unencodable.first?_eq_none
  unfold encode
  rw [← hnone]
  cases Unencodable.first? cs.label cs.objection cs.has cs.gathers 0 s <;> simp

end Charset

/-- The codec that a name stands for. The name itself is written in UTF-8 to be looked up. -/
def Codec.find [Codecs] (name : Text) : Except CodecError Codec := do
  let _ ← Charset.utf8.encode name
  if .char '\x00' ∈ name then throw .nulInName
  match Charset.ofName? name with
  | some cs => return cs.codec
  | none =>
    match Codecs.find? name with
    | some codec => return codec
    | none => throw (.unknownCharset name)

def Unencodable.message (run : Unencodable) : Text :=
  [.char '\x27'] ++ run.label ++ "' codec can't encode ".points ++
    (if run.count = 1 then
      "character '".points ++ Text.codeEscape run.char ++ "' in position ".points ++
        Numeral.ofNat run.position
    else
      "characters in position ".points ++ Numeral.ofNat run.position ++ [.char '-'] ++
        Numeral.ofNat (run.position + run.count - 1)) ++
    ": ".points ++ run.objection

def CodecError.message : CodecError → Text
  | .unknownCharset name => "unknown encoding: ".points ++ name
  | .notText name method =>
    [.char '\x27'] ++ name ++ "' is not a text encoding; use codecs.".points ++ method ++
      "() to handle arbitrary codecs".points
  | .nulInName => "embedded null character".points
  | .unencodable run => run.message
  | .undecodable message | .failed message => message

end HttpUri
