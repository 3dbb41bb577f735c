import HttpUri.Authority
import HttpUri.Text.Lower

/-! Hosts that requests are sent to. -/
namespace HttpUri

/-- Scheme, name and port of a host. The port may be of any type: only a location made of it has to
have a number. -/
structure Host where
  hostname : Text
  port : Datum
  scheme : Text
  named : hostname ≠ []

namespace Host

def defaultScheme : Text := "http".points

/-- The host of a name, a port and a scheme. The scheme goes into small letters; an empty one is
none, and an absent port is one that is not given. -/
def make (hostname : Text) (port : Datum) (scheme : Option Text) : Except Error Host :=
  if h : hostname = [] then .error (.argument .emptyHostname)
  else
    let port := match port with | .absent => .whole (-1) | d => d
    let scheme := match scheme with | none | some [] => defaultScheme | some s => s
    .ok ⟨hostname, port, Text.lower scheme, h⟩

/-- The scheme before the first `://`, and what follows it. -/
def takeScheme (s : Text) : Text × Text := (Text.cutAt "://".points s).getD (defaultScheme, s)

/-- Parses `scheme://host:port`, where all but the host may be absent. -/
def parse (s : Text) : Except Error Host := do
  let (scheme, rest) := takeScheme s
  let authority ← Authority.parse rest
  if authority.userInfo.isSome then throw (.url (.userInfoInHost rest))
  make authority.hostname (.whole authority.port) (some scheme)

def authority (h : Host) : Except Error Authority := Authority.make h.hostname h.port none

def toUri (h : Host) : Except Error Text := do
  let authority ← h.authority
  return h.scheme ++ "://".points ++ authority.toText

def shown (h : Host) : Text :=
  "HttpHost(hostname=".points ++ Text.quoted h.hostname ++ ", port=".points ++ h.port.shown ++
    ", scheme=".points ++ Text.quoted h.scheme ++ [.char ')']

def same (a b : Host) : Bool :=
  decide (a.hostname = b.hostname) && a.port.same b.port && decide (a.scheme = b.scheme)

end Host
end HttpUri
