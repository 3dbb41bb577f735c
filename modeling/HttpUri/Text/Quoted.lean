import HttpUri.Text.Hex
import HttpUri.Text.Printable

/-! Texts in quotes, as they stand in messages. -/
namespace HttpUri.Text

/-- The numbered escape of a character: two, four or eight digits, as many as its code needs. -/
def codeEscape (c : CodePoint) : Text :=
  if c.toNat < 0x100 then .char '\x5c' :: .char 'x' :: hexDigits 2 c.toNat
  else if c.toNat < 0x10000 then .char '\x5c' :: .char 'u' :: hexDigits 4 c.toNat
  else .char '\x5c' :: .char 'U' :: hexDigits 8 c.toNat

/-- Single quotes enclose a text, but double ones a text that holds single quotes alone. -/
def quoteMark (s : Text) : CodePoint :=
  if .char '\x27' ∈ s ∧ .char '\x22' ∉ s then .char '\x22' else .char '\x27'

/-- One character of a quoted text: the mark and the backslash are escaped by a backslash, line
breaks and tabs by a letter, and what does not show by its code. -/
def quoteChar (mark c : CodePoint) : Text :=
  if c = mark ∨ c = '\x5c' then [.char '\x5c', c]
  else if c = '\n' then [.char '\x5c', .char 'n']
  else if c = '\r' then [.char '\x5c', .char 'r']
  else if c = '\t' then [.char '\x5c', .char 't']
  else if isPrintable c then [c]
  else codeEscape c

def quoted (s : Text) : Text :=
  let mark := quoteMark s
  mark :: s.flatMap (quoteChar mark) ++ [mark]

def quotedOrNone : Option Text → Text
  | some s => quoted s
  | none => orNone none

end HttpUri.Text
