import HttpUri.Number.Numeral

/-! Binary floating-point numbers of 64 bits: reading a decimal fraction and writing the shortest
decimal that reads back. -/
namespace HttpUri

/-- A number `± mantissa * 2 ^ exponent`, or an infinity. A mantissa other than zero has 53 bits,
or fewer at the least exponent. -/
inductive Binary64
  | finite (negative : Bool) (mantissa : Nat) (exponent : Int)
  | infinite (negative : Bool)
  deriving DecidableEq, Repr

namespace Binary64

def minExponent : Int := -1074

def maxExponent : Int := 971

def roundDiv (num den : Nat) : Nat :=
  let floor := num / den
  let twice := 2 * (num % den)
  if den < twice ∨ (twice = den ∧ floor % 2 = 1) then floor + 1 else floor

/-- `num / den * base ^ shift` as a quotient. -/
def scale (base : Nat) (shift : Int) (num den : Nat) : Nat × Nat :=
  if 0 ≤ shift then (num * base.pow shift.toNat, den) else (num, den * base.pow (-shift).toNat)

def ofQuotient (negative : Bool) (num den : Nat) : Binary64 :=
  let guess : Int := (num.log2 : Int) - den.log2 - 52
  let (n, d) := scale 2 (-guess) num den
  let exponent := max minExponent (if n / d < Nat.pow 2 52 then guess - 1 else guess)
  let (n, d) := scale 2 (-exponent) num den
  let mantissa := roundDiv n d
  let (mantissa, exponent) :=
    if mantissa = Nat.pow 2 53 then (Nat.pow 2 52, exponent + 1) else (mantissa, exponent)
  if mantissa = 0 then .finite negative 0 0
  else if maxExponent < exponent then .infinite negative
  else .finite negative mantissa exponent

/-- The number nearest to `± digits * 10 ^ exponent`. -/
def ofDecimal (negative : Bool) (digits : Nat) (exponent : Int) : Binary64 :=
  let size : Int := (Nat.toDigits 10 digits).length + exponent
  if digits = 0 ∨ size < -400 then .finite negative 0 0
  else if 400 < size then .infinite negative
  else
    let (num, den) := scale 10 exponent digits 1
    ofQuotient negative num den

/-- Four times the mantissas halfway to the neighbours below and above. -/
def bounds (mantissa : Nat) (exponent : Int) : Nat × Nat :=
  if mantissa = Nat.pow 2 52 ∧ minExponent < exponent then (4 * mantissa - 1, 4 * mantissa + 2)
  else (4 * mantissa - 2, 4 * mantissa + 2)

/-- The place of the first digit of a positive quotient, counted from the units. -/
def leadingPlace (num den : Nat) : Int :=
  if den ≤ num then (Nat.toDigits 10 (num / den)).length - 1
  else match (List.range 400).find? fun t => decide (den ≤ num * Nat.pow 10 t) with
    | some t => -(t : Int)
    | none => -400

/-- The multiple of `10 ^ place` next to the number that lies between its halfway bounds; of two the
nearer, and halfway between them the even one. The bounds count as inside for an even mantissa. -/
def onGrid? (mantissa : Nat) (exponent place : Int) : Option Nat :=
  let (low, high) := bounds mantissa exponent
  let numerator (quarters : Nat) : Nat :=
    (scale 10 (-place) (scale 2 (exponent - 2) quarters 1).1 1).1
  let den := (scale 10 (-place) 1 (scale 2 (exponent - 2) 1 1).2).2
  let num := numerator (4 * mantissa)
  let floor := num / den
  let fits (k : Nat) : Bool :=
    if mantissa % 2 = 0 then decide (numerator low ≤ k * den ∧ k * den ≤ numerator high)
    else decide (numerator low < k * den ∧ k * den < numerator high)
  match fits floor, fits (floor + 1) with
  | true, true => some (roundDiv num den)
  | true, false => some floor
  | false, true => some (floor + 1)
  | false, false => none

/-- The fewest digits that read back as a positive number, with the place of the last one. -/
def shortest (mantissa : Nat) (exponent : Int) : Nat × Int :=
  let (num, den) := scale 2 exponent mantissa 1
  let lead := leadingPlace num den
  match (List.range 17).findSome? fun (i : Nat) =>
      (onGrid? mantissa exponent (lead - i)).map fun k => (k, lead - i) with
  | some p => p
  | none => (0, 0)

def trimZeros (digits : Text) : Text × Nat :=
  let kept := (digits.reverse.dropWhile fun c => c = .char '0').reverse
  (kept, digits.length - kept.length)

/-- Digits with a point before the `point`-th one. Positional from `0.0001` up to seventeen
places, with an exponent of at least two digits beyond. -/
def layout (digits : Text) (point : Int) : Text :=
  if point ≤ -4 ∨ 16 < point then
    let fraction := digits.drop 1
    let exponent := point - 1
    let size := Numeral.ofNat exponent.natAbs
    digits.take 1 ++ (if fraction = [] then [] else .char '.' :: fraction) ++
      [.char 'e', .char (if exponent < 0 then '-' else '+')] ++
        (if size.length < 2 then .char '0' :: size else size)
  else if point ≤ 0 then
    [.char '0', .char '.'] ++ List.replicate (-point).toNat (.char '0') ++ digits
  else if digits.length ≤ point.toNat then
    digits ++ List.replicate (point.toNat - digits.length) (.char '0') ++ [.char '.', .char '0']
  else digits.take point.toNat ++ .char '.' :: digits.drop point.toNat

def toText : Binary64 → Text
  | .infinite negative => (if negative then [.char '-'] else []) ++ "inf".points
  | .finite negative mantissa exponent =>
    (if negative then [.char '-'] else []) ++
      if mantissa = 0 then "0.0".points
      else
        let (k, place) := shortest mantissa exponent
        let (digits, zeros) := trimZeros (Numeral.ofNat k)
        layout digits (digits.length + zeros + place)

def isWhole (n : Int) : Binary64 → Bool
  | .infinite _ => false
  | .finite negative mantissa exponent =>
    let (num, den) := scale 2 exponent mantissa 1
    decide ((if negative then -(num : Int) else num) = n * den)

/-- The two are one number; zeros of both signs are equal. -/
def sameNumber : Binary64 → Binary64 → Bool
  | .finite _ 0 _, .finite _ 0 _ => true
  | a, b => decide (a = b)

end Binary64
end HttpUri
