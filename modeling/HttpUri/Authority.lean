import HttpUri.Url

/-! Network locations. -/
namespace HttpUri

/-- Host name, port and user info of a location. A negative port is one that is not given. -/
structure Authority where
  hostname : Text
  port : Int
  userInfo : Option Text
  named : hostname ≠ []
  deriving DecidableEq

namespace Authority

/-- The location of a host name, a port of any type and user info. The name is looked at first; an
absent port is not given, and only whole numbers are ports. -/
def make (hostname : Text) (port : Datum) (userInfo : Option Text) : Except Error Authority :=
  if h : hostname = [] then .error (.argument .emptyHostname)
  else match port with
    | .absent => .ok ⟨hostname, -1, userInfo, h⟩
    | .whole n => .ok ⟨hostname, n, userInfo, h⟩
    | d => .error (.argument (.badPort d))

def portDatum (port : Option Nat) : Datum :=
  match port with
  | some n => .whole n
  | none => .whole (-1)

/-- Parses `user@host:port`, where all but the host may be absent. -/
def parse (s : Text) : Except Error Authority := do
  let parts := AuthorityParts.ofText s
  let port ← parsePort parts.port s
  make parts.host (portDatum port) parts.userInfo

/-- The location of a reference that names a host. -/
def ofUrl? (u : Url) : Option Authority :=
  match u.host with
  | none => none
  | some host => (make host (portDatum u.port) u.userInfo).toOption

def nameText (a : Authority) : Text :=
  (match a.userInfo with | some u => u ++ [.char '@'] | none => []) ++ bracketed a.hostname

def toText (a : Authority) : Text :=
  a.nameText ++ if 0 ≤ a.port then .char ':' :: Numeral.ofInt a.port else []

def shown (a : Authority) : Text :=
  "URIAuthority(hostname=".points ++ Text.quoted a.hostname ++ ", port=".points ++
    Numeral.ofInt a.port ++ ", user_info=".points ++ Text.quotedOrNone a.userInfo ++ [.char ')']

end Authority
end HttpUri
