import HttpUri.Text.Basic

/-! Byte-by-byte readers of characters. -/
namespace HttpUri

/-- The character that stands for bytes without a meaning. -/
def replacement : CodePoint := '\ufffd'

/-- A reader that takes one byte at a time: `step` gives the characters that the byte completes, and
`finish` those for bytes left over at the end. -/
structure ByteReader (σ : Type) where
  start : σ
  step : σ → UInt8 → Text × σ
  finish : σ → Text

namespace ByteReader

variable {σ : Type}

/-- The characters read from a state on. -/
def readFrom (r : ByteReader σ) (state : σ) : List UInt8 → Text
  | [] => r.finish state
  | b :: rest =>
    let (out, next) := r.step state b
    out ++ r.readFrom next rest

def read (r : ByteReader σ) (bytes : List UInt8) : Text := r.readFrom r.start bytes

end ByteReader
end HttpUri
