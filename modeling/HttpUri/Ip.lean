import HttpUri.Text.Hex
import HttpUri.Number.Numeral

/-! Internet addresses in text form. -/
namespace HttpUri.Ip

/-- One number of a dotted address: at most three digits, no idle leading zero, at most 255. -/
def isOctet (s : Text) : Bool :=
  s ≠ [] && Numeral.isDigits s && decide (s.length ≤ 3) &&
    (s = [.char '0'] || s.head? ≠ some (.char '0')) && decide (Numeral.value s ≤ 255)

def isDotted (s : Text) : Bool :=
  let parts := s.splitOn (.char '.')
  decide (parts.length = 4) && parts.all isOctet

/-- One group of an address: up to four hexadecimal digits. -/
def isGroup (s : Text) : Bool :=
  s ≠ [] && decide (s.length ≤ 4) && s.all Text.isHex

/-- The number of groups, where a dotted address may stand for the last two. -/
def countGroups? (dotted : Bool) : List Text → Option Nat
  | [] => some 0
  | [s] => if isGroup s then some 1 else if dotted && isDotted s then some 2 else none
  | s :: rest => if isGroup s then (countGroups? dotted rest).map (· + 1) else none

def groups? (dotted : Bool) (s : Text) : Option Nat :=
  if s = [] then some 0 else countGroups? dotted (s.splitOn (.char ':'))

/-- An address without a zone: eight groups, or fewer around one double colon. -/
def isPlain (s : Text) : Bool :=
  match Text.cutAt [.char ':', .char ':'] s with
  | none => groups? true s = some 8
  | some (left, right) =>
    match groups? false left, groups? true right with
    | some m, some n => decide (m + n ≤ 7)
    | _, _ => false

/-- An address, which a percent sign and the name of a zone may follow. A zone is not empty and
holds no further percent sign; a slash stands nowhere. -/
def isIpv6 (s : Text) : Bool :=
  .char '/' ∉ s &&
    match Text.cutFirst '%' s with
    | none => isPlain s
    | some (address, zone) => zone ≠ [] && .char '%' ∉ zone && isPlain address

end HttpUri.Ip
