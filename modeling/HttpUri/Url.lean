import HttpUri.Error

/-! Parsed URI references. -/
namespace HttpUri

/-- A reference as it was written, its five parts, and what it says of each component. -/
structure Url where
  text : Text
  parts : UrlParts
  scheme : Option Text
  userInfo : Option Text
  host : Option Text
  port : Option Nat
  path : Text
  query : Option Text
  fragment : Option Text
  deriving DecidableEq, Repr

/-- The number that a port denotes; an empty port is none. The whole text stands for it in
messages. -/
def parsePort (port : Option Text) (text : Text) : Except Error (Option Nat) :=
  match port with
  | none | some [] => .ok none
  | some digits =>
    if Numeral.isDigits digits = false then .error (.url (.portNotNumber text))
    else if Numeral.digitLimit < digits.length then .error (.tooManyDigits digits.length)
    else .ok (some (Numeral.value digits))

/-- A host in brackets if it is an address without them. -/
def bracketed (host : Text) : Text :=
  if .char ':' ∈ host ∧ host.head? ≠ some (.char '[') then .char '[' :: host ++ [.char ']']
  else host

namespace Url

/-- Parses a reference that fits the grammar. The scheme keeps its letters, and a query or fragment
that is empty is not one that is absent. -/
def parse (s : Text) : Except Error Url :=
  if Grammar.isReference s = false then .error (.url (.notReference (.text s)))
  else match UrlParts.ofText s with
    | .error fault => .error (.url (.refused s fault))
    | .ok parts => do
      let authority := AuthorityParts.ofText parts.authority
      let port ← parsePort authority.port s
      return {
        text := s
        parts := parts
        scheme := if parts.scheme = [] then none else some (s.take parts.scheme.length)
        userInfo := authority.userInfo
        host := if authority.host = [] then none else some authority.host
        port := port
        path := parts.path
        query := if .char '?' ∈ (UrlParts.cutOr '#' s).1 then some parts.query else none
        fragment := if .char '#' ∈ s then some parts.fragment else none }

def ofDatum : Datum → Except Error Url
  | .text s => parse s
  | d => .error (.url (.notReference d))

def isAbsolute (u : Url) : Bool := u.scheme.isSome

def shown (u : Url) : Text := "URL(".points ++ Text.quoted u.text ++ [.char ')']

def same (a b : Url) : Bool := decide (a.text = b.text)

end Url
end HttpUri
