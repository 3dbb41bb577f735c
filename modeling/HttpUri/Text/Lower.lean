import HttpUri.Text.Basic
import HttpUri.Text.Lower.Context
import HttpUri.Text.Lower.Mapping

/-! Lower-casing of a text. The capital sigma is the one letter whose small form depends on its
neighbours, and the dotted capital I the one whose small form has two characters. -/
namespace HttpUri.Text
open Lower

/-- The first character that is not ignorable has a case. -/
def casedAhead (s : Text) : Bool :=
  match s.dropWhile isIgnorable with
  | c :: _ => isCased c
  | [] => false

/-- Lower-cases a text whose nearest earlier character that is not ignorable has a case, or not. -/
def lowerAfter (casedBefore : Bool) : Text → Text
  | [] => []
  | c :: rest =>
    let small :=
      if c = 'Σ' then [if casedBefore && !casedAhead rest then .char 'ς' else .char 'σ']
      else if c = '\u0130' then [.char 'i', .char '\u0307']
      else [ofChar c]
    small ++ lowerAfter (if isIgnorable c then casedBefore else isCased c) rest

/-- The text in small letters; a capital sigma that ends a word becomes the final one. -/
def lower (s : Text) : Text := lowerAfter false s

end HttpUri.Text
