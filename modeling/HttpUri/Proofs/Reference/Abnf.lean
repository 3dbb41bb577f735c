import Mathlib.Computability.Language
import HttpUri.Ip

/-! The grammar of RFC 3986, appendix A, rule by rule, with the signs and letters beyond ASCII
counted as unreserved and addresses in brackets as `Ip` reads them. -/
namespace HttpUri.Abnf
open scoped Computability

/-- One character of a class. -/
def oneOf (p : CodePoint → Bool) : Language CodePoint :=
  ({s | ∃ c, p c = true ∧ s = [c]} : Set Text)

def sign (c : CodePoint) : Language CodePoint := {[c]}

def optional (l : Language CodePoint) : Language CodePoint := 1 + l

def alpha : Language CodePoint := oneOf CodePoint.isAlpha

def digit : Language CodePoint := oneOf CodePoint.isDigit

def hexdig : Language CodePoint :=
  digit + oneOf fun c => decide ('A' ≤ c ∧ c ≤ 'F') || decide ('a' ≤ c ∧ c ≤ 'f')

/-- The letters and signs beyond ASCII, which no surrogate is. -/
def other : Language CodePoint :=
  oneOf fun c => decide (0xA1 ≤ c.toNat ∧ c.toNat ≤ 0xD7FF) ||
    decide (0xE000 ≤ c.toNat ∧ c.toNat ≤ 0x10FFFF)

def unreserved : Language CodePoint :=
  alpha + digit + sign '-' + sign '.' + sign '_' + sign '~' + other

def subDelims : Language CodePoint := oneOf fun c => decide (c ∈ "!$&'()*+,;=".points)

def pctEncoded : Language CodePoint := sign '%' * (hexdig * hexdig)

def pchar : Language CodePoint := unreserved + pctEncoded + subDelims + sign ':' + sign '@'

def segment : Language CodePoint := pchar∗

def segmentNz : Language CodePoint := pchar * pchar∗

def segmentNzNc : Language CodePoint :=
  (unreserved + pctEncoded + subDelims + sign '@') *
    (unreserved + pctEncoded + subDelims + sign '@')∗

def pathAbempty : Language CodePoint := (sign '/' * segment)∗

def pathAbsolute : Language CodePoint := sign '/' * optional (segmentNz * pathAbempty)

def pathNoscheme : Language CodePoint := segmentNzNc * pathAbempty

def pathRootless : Language CodePoint := segmentNz * pathAbempty

def pathEmpty : Language CodePoint := 1

def userinfo : Language CodePoint := (unreserved + pctEncoded + subDelims + sign ':')∗

def regName : Language CodePoint := (unreserved + pctEncoded + subDelims)∗

def ipv6Address : Language CodePoint := ({s | Ip.isIpv6 s = true} : Set Text)

def ipLiteral : Language CodePoint := sign '[' * (ipv6Address * sign ']')

def host : Language CodePoint := ipLiteral + regName

def port : Language CodePoint := digit∗

def authority : Language CodePoint :=
  optional (userinfo * sign '@') * (host * optional (sign ':' * port))

def scheme : Language CodePoint := alpha * (alpha + digit + sign '+' + sign '-' + sign '.')∗

def query : Language CodePoint := (pchar + sign '/' + sign '?')∗

def fragment : Language CodePoint := (pchar + sign '/' + sign '?')∗

/-- What may follow the path of any reference. -/
def suffix : Language CodePoint :=
  optional (sign '?' * query) * optional (sign '#' * fragment)

def netPath : Language CodePoint := sign '/' * (sign '/' * (authority * pathAbempty))

def hierPart : Language CodePoint := netPath + pathAbsolute + pathRootless + pathEmpty

def relativePart : Language CodePoint := netPath + pathAbsolute + pathNoscheme + pathEmpty

def uri : Language CodePoint := scheme * (sign ':' * (hierPart * suffix))

def relativeRef : Language CodePoint := relativePart * suffix

def uriReference : Language CodePoint := uri + relativeRef

/-- Neither scheme nor authority, and a path that a colon begins. -/
def colonReference : Language CodePoint := sign ':' * (segment * pathAbempty) * suffix

/-- A scheme and neither authority nor path. -/
def bareScheme : Language CodePoint := scheme * (sign ':' * suffix)

/-- An authority and a path, both empty. -/
def emptyLocation : Language CodePoint :=
  optional (scheme * sign ':') * (sign '/' * (sign '/' * suffix))

end HttpUri.Abnf
