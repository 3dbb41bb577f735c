import HttpUri.Charset.Basic

/-! Names of charsets. -/
namespace HttpUri.Charset

/-- The letters, digits and points of a name in small form, one low line for whatever stands between
them. `begun` says that some went before, `pending` that a gap did. -/
def normalAfter : (begun pending : Bool) → Text → Text
  | _, _, [] => []
  | begun, pending, c :: rest =>
    if c.isAlphanum ∨ c = '.' then
      (if begun && pending then [.char '_'] else []) ++ c.toLower :: normalAfter true false rest
    else normalAfter begun true rest

/-- The name without regard to letter case and punctuation. -/
def normalName (name : Text) : Text := normalAfter false false name

def title : Charset → Text
  | .utf8 => "utf_8".points
  | .latin1 => "latin_1".points
  | .ascii => "ascii".points
  | .windows1252 => "cp1252".points
  | .utf16le => "utf_16_le".points

def aliases : Charset → List Text
  | .utf8 => ["u8", "utf", "utf8", "utf8_ucs2", "utf8_ucs4", "cp65001"].map String.points
  | .latin1 => ["8859", "cp819", "csisolatin1", "ibm819", "iso8859", "iso8859_1", "iso_8859_1",
      "iso_8859_1_1987", "iso_ir_100", "l1", "latin", "latin1"].map String.points
  | .ascii => ["646", "ansi_x3.4_1968", "ansi_x3_4_1968", "ansi_x3.4_1986", "cp367", "csascii",
      "ibm367", "iso646_us", "iso_646.irv_1991", "iso_ir_6", "us", "us_ascii"].map String.points
  | .windows1252 => ["1252", "windows_1252"].map String.points
  | .utf16le => ["unicodelittleunmarked", "utf_16le"].map String.points

def all : List Charset := [.utf8, .latin1, .ascii, .windows1252, .utf16le]

/-- A name stands for what has a title and other names, all of them in normal form. In the other
names a low line may stand as a point. A name that holds a NUL or a surrogate stands for nothing. -/
def standsFor (title : Text) (aliases : List Text) (name : Text) : Bool :=
  let normal := normalName name
  let joined := normal.map fun c : CodePoint => if c = '.' then .char '_' else c
  (.char '\x00') ∉ name && name.isScalar &&
    (title = normal || aliases.contains normal || aliases.contains joined)

/-- The built-in charset of a name, if there is one. -/
def ofName? (name : Text) : Option Charset :=
  all.find? fun cs => standsFor cs.title cs.aliases name

end HttpUri.Charset
