import HttpUri.Number.Binary64
import HttpUri.Text.Quoted

/-! Values without a fixed type: ports and header values before they are checked. -/
namespace HttpUri

/-- A value of any of the types that a caller may hand over. -/
inductive Datum
  | absent
  | flag (b : Bool)
  | whole (n : Int)
  | real (x : Binary64)
  | text (s : Text)
  | list (items : List Datum)
  | record (fields : List (Text × Datum))
  deriving Inhabited

namespace Datum

mutual
/-- The value as messages show it: texts in quotes. -/
def shown : Datum → Text
  | .absent => "None".points
  | .flag true => "True".points
  | .flag false => "False".points
  | .whole n => Numeral.ofInt n
  | .real x => x.toText
  | .text s => Text.quoted s
  | .list items => [.char '['] ++ Text.join [.char ',', .char ' '] (shownItems items) ++ [.char ']']
  | .record fields => [.char '\x7b'] ++ Text.join [.char ',', .char ' '] (shownFields fields) ++
    [.char '\x7d']

def shownItems : List Datum → List Text
  | [] => []
  | d :: rest => shown d :: shownItems rest

def shownFields : List (Text × Datum) → List Text
  | [] => []
  | (name, d) :: rest => (Text.quoted name ++ [.char ':', .char ' '] ++ shown d) :: shownFields rest
end

/-- The value as plain text: a text stands for itself. -/
def plain : Datum → Text
  | .text s => s
  | d => shown d

mutual
/-- The two values are equal. Truth values count as the numbers one and zero, and numbers of both
kinds compare by value. -/
def same : Datum → Datum → Bool
  | .absent, .absent => true
  | .text s, .text t => decide (s = t)
  | .flag a, .flag b => a == b
  | .flag a, .whole n | .whole n, .flag a => decide (n = a.toNat)
  | .flag a, .real x | .real x, .flag a => x.isWhole a.toNat
  | .whole m, .whole n => decide (m = n)
  | .whole n, .real x | .real x, .whole n => x.isWhole n
  | .real x, .real y => x.sameNumber y
  | .list a, .list b => sameItems a b
  | .record a, .record b => sameFields a b
  | _, _ => false

def sameItems : List Datum → List Datum → Bool
  | [], [] => true
  | a :: as, b :: bs => same a b && sameItems as bs
  | _, _ => false

def sameFields : List (Text × Datum) → List (Text × Datum) → Bool
  | [], [] => true
  | (m, a) :: as, (n, b) :: bs => decide (m = n) && same a b && sameFields as bs
  | _, _ => false
end

end Datum
end HttpUri
