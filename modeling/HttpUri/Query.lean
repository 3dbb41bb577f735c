import HttpUri.Percent

/-! Query strings: pieces between ampersands, each a name with an optional value. -/
namespace HttpUri

/-- A query parameter. A value that is absent is not one that is empty. -/
structure Parameter where
  name : Text
  value : Option Text
  deriving DecidableEq, Repr

namespace Query

def defaultCharset : Text := "utf-8".points

/-- Decodes a name or a value: a plus sign stands for a space. -/
def decodeText [Codecs] (charset s : Text) : Except CodecError Text :=
  Percent.decode charset (s.map fun c : CodePoint => if c = '+' then .char ' ' else c)

/-- Encodes a name or a value. The byte of a space is written as a plus sign if the text holds a
space, and percent-encoded like any other if it holds none. -/
def encodeText [Codecs] (charset s : Text) : Except CodecError Text := do
  let encoded ← Percent.encode (fun b => decide (.char ' ' ∈ s) && b == 0x20) charset s
  return encoded.map fun c : CodePoint => if c = ' ' then .char '+' else c

/-- The parameter of a piece: the first equals sign ends the name. The value is read before the
name. -/
def parsePiece [Codecs] (charset piece : Text) : Except CodecError Parameter :=
  match Text.cutFirst '=' piece with
  | some (name, value) => do
    let value ← decodeText charset value
    let name ← decodeText charset name
    return ⟨name, some value⟩
  | none => do
    let name ← decodeText charset piece
    return ⟨name, none⟩

/-- The parameters of a query string in order; empty pieces are passed over. -/
def parse [Codecs] (raw charset : Text) : Except CodecError (List Parameter) :=
  ((raw.splitOn (.char '&')).filter (· ≠ [])).mapM (parsePiece charset)

def formatPiece [Codecs] (charset : Text) (p : Parameter) : Except CodecError Text := do
  let name ← encodeText charset p.name
  match p.value with
  | none => return name
  | some value => return name ++ .char '=' :: (← encodeText charset value)

def format [Codecs] (params : List Parameter) (charset : Text) : Except CodecError Text := do
  let pieces ← params.mapM (formatPiece charset)
  return Text.join [.char '&'] pieces

end Query
end HttpUri
