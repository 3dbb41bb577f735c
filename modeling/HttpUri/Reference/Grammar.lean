import HttpUri.Authority.Parts
import HttpUri.Ip
import HttpUri.Reference.Components

/-! The grammar of URI references, with letters and signs beyond ASCII allowed wherever unreserved
characters are. -/
namespace HttpUri.Grammar

/-- Characters that need no encoding. Above ASCII these are all from U+00A1 on, and no surrogates.
-/
def isUnreserved (c : CodePoint) : Bool :=
  c.isAlphanum || c = '-' || c = '.' || c = '_' || c = '~' ||
    decide (0xA1 ≤ c.toNat) && !c.isSurrogate

def isSubDelim (c : CodePoint) : Bool :=
  c = '!' || c = '$' || c = '&' || c = '\x27' || c = '(' || c = ')' || c = '*' || c = '+' ||
    c = ',' || c = ';' || c = '='

def isNameChar (c : CodePoint) : Bool := isUnreserved c || isSubDelim c

def isUserInfoChar (c : CodePoint) : Bool := isNameChar c || c = ':'

def isSegmentChar (c : CodePoint) : Bool := isUserInfoChar c || c = '@'

def isPathChar (c : CodePoint) : Bool := isSegmentChar c || c = '/'

def isQueryChar (c : CodePoint) : Bool := isPathChar c || c = '?'

/-- Every percent sign starts a triplet with two hexadecimal digits, and every other character is an
allowed one. -/
def isEncoded (allowed : CodePoint → Bool) : Text → Bool
  | [] => true
  | '%' :: high :: low :: rest =>
    Text.isHex high && Text.isHex low && isEncoded allowed rest
  | c :: rest => c ≠ '%' && allowed c && isEncoded allowed rest

def isSchemeChar (c : CodePoint) : Bool := c.isAlphanum || c = '+' || c = '.' || c = '-'

def isScheme : Text → Bool
  | [] => false
  | c :: rest => c.isAlpha && rest.all isSchemeChar

/-- The text without the brackets around it. A text without brackets stands, one with a single
bracket does not. -/
def unbracket? (s : Text) : Option Text :=
  match decide (s.head? = some (.char '[')), decide (s.getLast? = some (.char ']')) with
  | true, true => some (s.drop 1).dropLast
  | false, false => some s
  | _, _ => none

/-- A host is an address, in brackets or not, or a registered name. A colon tells an address. -/
def isHost (s : Text) : Bool :=
  match unbracket? s with
  | none => false
  | some host => if .char ':' ∈ host then Ip.isIpv6 host else isEncoded isNameChar host

/-- What follows the user info of an authority, if there is any. -/
def afterUserInfo (s : Text) : Text :=
  match Text.cutLast '@' s with
  | some (_, rest) => rest
  | none => s

/-- User info, host and port each fit the grammar, and brackets hold an address. -/
def isAuthority (s : Text) : Bool :=
  let parts := AuthorityParts.ofText s
  parts.userInfo.all (isEncoded isUserInfoChar) && parts.port.all (·.all CodePoint.isDigit) &&
    (if (afterUserInfo s).head? = some (.char '[') then .char ':' ∈ parts.host && isHost parts.host
    else isHost parts.host)

/-- The components fit the grammar. A scheme needs an authority or a path behind it, and an empty
authority needs a path. -/
def fits (c : Components) : Bool :=
  c.scheme.all (fun s => isScheme s && (c.authority.isSome || c.path ≠ [])) &&
    c.authority.all (fun a => (a ≠ [] || c.path ≠ []) && isAuthority a) &&
    isEncoded isPathChar c.path &&
    c.query.all (isEncoded isQueryChar) && c.fragment.all (isEncoded isQueryChar)

def isReference (s : Text) : Bool := fits (Components.ofText s)

end HttpUri.Grammar
