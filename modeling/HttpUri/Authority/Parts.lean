import HttpUri.Text.Basic

/-! The parts of an authority component, as its delimiters divide it. -/
namespace HttpUri

/-- User info, host and port as they are written; an address in brackets stands without them. -/
structure AuthorityParts where
  userInfo : Option Text
  host : Text
  port : Option Text
  deriving DecidableEq, Repr

namespace AuthorityParts

/-- Host and port. The host in brackets ends at the first closing one, which nothing but a port may
follow; else it is kept whole for the host check to see. Without brackets it ends at the first
colon. -/
def hostAndPort (s : Text) : Text × Option Text :=
  match s with
  | '[' :: rest =>
    match Text.cutFirst ']' rest with
    | none => (s, none)
    | some (host, []) => (host, none)
    | some (host, ':' :: port) => (host, some port)
    | some _ => (s, none)
  | _ =>
    match Text.cutFirst ':' s with
    | some (host, port) => (host, some port)
    | none => (s, none)

/-- The parts of any text: the user info ends at the last at sign. -/
def ofText (s : Text) : AuthorityParts :=
  match Text.cutLast '@' s with
  | some (userInfo, rest) =>
    let (host, port) := hostAndPort rest
    ⟨some userInfo, host, port⟩
  | none =>
    let (host, port) := hostAndPort s
    ⟨none, host, port⟩

end AuthorityParts
end HttpUri
