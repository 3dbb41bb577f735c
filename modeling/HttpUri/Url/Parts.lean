import HttpUri.Reference.Grammar
import HttpUri.Text.Range

/-! The five parts of a URL, and the authorities that no URL may have. -/
namespace HttpUri

/-- Scheme, authority, path, query and fragment; a part that is absent is empty. The scheme is in
small letters. -/
structure UrlParts where
  scheme : Text
  authority : Text
  path : Text
  query : Text
  fragment : Text
  deriving DecidableEq, Repr

/-- Why an authority is refused. -/
inductive AuthorityFault
  /-- It holds an opening bracket or a closing one, but not both. -/
  | loneBracket
  /-- Something stands before the brackets, or something other than a port behind them. -/
  | misplacedBrackets
  /-- The brackets hold no address. -/
  | notAddress
  /-- It holds a character that looks like a delimiter. -/
  | lookalike
  deriving DecidableEq, Repr

namespace UrlParts

/-- Line breaks and tabs, which a URL loses wherever they stand. -/
def isBreak (c : CodePoint) : Bool := c = '\t' || c = '\r' || c = '\n'

/-- The scheme in small letters and the text after its colon, or no scheme and the whole text. -/
def takeScheme (s : Text) : Text × Text :=
  match Text.cutFirst ':' s with
  | some (name, rest) =>
    if Grammar.isScheme name then (name.map CodePoint.toLower, rest) else ([], s)
  | none => ([], s)

def takeAuthority : Text → Text × Text
  | '/' :: '/' :: rest =>
    (rest.takeWhile (!Components.endsAuthority ·), rest.dropWhile (!Components.endsAuthority ·))
  | s => ([], s)

/-- The text up to a character and the text behind it; all of the text if it holds none. -/
def cutOr (c : CodePoint) (s : Text) : Text × Text := (Text.cutFirst c s).getD (s, [])

/-- An address of a later version: a `v`, its number in hexadecimal digits, a point, and more. -/
def isFutureAddress : Text → Bool
  | 'v' :: rest =>
    match Text.cutFirst '.' rest with
    | some (version, address) => version ≠ [] && version.all Text.isHex && address ≠ []
    | none => false
  | _ => false

/-- Brackets stand in pairs, first in the host and right before the port, and hold an address. -/
def checkBrackets (authority : Text) : Except AuthorityFault Unit :=
  match decide (.char '[' ∈ authority), decide (.char ']' ∈ authority) with
  | false, false => .ok ()
  | true, true =>
    let host := Grammar.afterUserInfo authority
    let address : Except AuthorityFault Text :=
      match Text.cutFirst '[' host with
      | none => .ok (cutOr ':' host).1
      | some (before, rest) =>
        let (address, port) := cutOr ']' rest
        if before = [] ∧ (port = [] ∨ port.head? = some (.char ':')) then .ok address
        else .error .misplacedBrackets
    address.bind fun s =>
      if if s.head? = some (.char 'v') then isFutureAddress s else Ip.isIpv6 s then .ok ()
      else .error .notAddress
  | _, _ => .error .loneBracket

/-- The characters whose compatibility decomposition holds a slash, a question mark, a number sign,
an at sign or a colon (Unicode 14). -/
def lookalikes : List (Nat × Nat) :=
  [(0x2047, 0x2049), (0x2100, 0x2101), (0x2105, 0x2106), (0x2A74, 0x2A74), (0xFE13, 0xFE13),
   (0xFE16, 0xFE16), (0xFE55, 0xFE56), (0xFE5F, 0xFE5F), (0xFE6B, 0xFE6B), (0xFF03, 0xFF03),
   (0xFF0F, 0xFF0F), (0xFF1A, 0xFF1A), (0xFF1F, 0xFF20)]

/-- No character of the authority looks like a delimiter. -/
def checkLookalikes (authority : Text) : Except AuthorityFault Unit :=
  if authority.any fun c => Text.inRanges lookalikes c.toNat then .error .lookalike else .ok ()

def ofText (s : Text) : Except AuthorityFault UrlParts := do
  let (scheme, rest) := takeScheme (s.filter (!isBreak ·))
  let (authority, rest) := takeAuthority rest
  checkBrackets authority
  let (rest, fragment) := cutOr '#' rest
  let (path, query) := cutOr '?' rest
  checkLookalikes authority
  return ⟨scheme, authority, path, query, fragment⟩

end UrlParts
end HttpUri
