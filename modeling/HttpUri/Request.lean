import HttpUri.Headers
import HttpUri.Host
import HttpUri.Query
import HttpUri.Url.Builder
import HttpUri.Version

/-! Requests and their targets. A target is held as components, and as the URL last composed of
them for as long as no component is assigned. -/
namespace HttpUri

/-- A composed URL and the number of its composition. Equal numbers mean one and the same result. -/
structure Composed where
  url : Url
  serial : Nat
  deriving DecidableEq, Repr

/-- The store of the composed URL. It is dirty until a URL goes in, and from when a component is
assigned. -/
structure Cache where
  value : Option Composed
  dirty : Bool
  deriving DecidableEq, Repr

namespace Cache

def empty : Cache := ⟨none, true⟩

def current (c : Cache) : Option Composed := if c.dirty then none else c.value

def put (c : Cache) (value : Composed) : Cache := { c with value := some value, dirty := false }

def invalidate (c : Cache) : Cache := { c with value := none, dirty := true }

end Cache

/-- What a request says: its method and version, the components of its target, its header fields and
its charset. -/
structure Message where
  method : Text
  version : Option Version
  scheme : Option Text
  authority : Option Authority
  path : Option Text
  parameters : Option (List Parameter)
  headers : Headers
  charset : Text
  deriving DecidableEq

/-- A request: what it says, the store of its composed URL, and how many were ever stored. -/
structure Request extends Message where
  cache : Cache
  compositions : Nat
  deriving DecidableEq

inductive Remark
  /-- The text is no reference and became the path. -/
  | keptAsPath (text : Text)
  /-- The components of a reference make up no URL. -/
  | notRebuilt (url : Url) (why : BuildError)

def Remark.message : Remark → Text
  | .keptAsPath text =>
    "Request URI ".points ++ Text.quoted text ++ " is not a valid URI, using it as path".points
  | .notRebuilt url why =>
    "Could not rebuild request URI from ".points ++ url.shown ++ ": ".points ++ why.message

namespace Message

/-- The path of the composed URL: it starts with a slash, and an absent one is a slash alone. -/
def targetPath : Option Text → Text
  | none => [.char '/']
  | some path => if path.head? = some (.char '/') then path else .char '/' :: path

/-- The components that the URL is composed of. Without an authority the scheme is left out; with
one, an absent scheme is the default. User info is never part of it. -/
def builder (m : Message) : Builder where
  scheme := m.authority.map fun _ => m.scheme.getD Host.defaultScheme
  host := m.authority.map (·.hostname)
  port := match m.authority with
    | some a => if 0 ≤ a.port then a.port else -1
    | none => -1
  path := some (targetPath m.path)
  parameters := m.parameters
  charset := m.charset

def compose [Codecs] (m : Message) : Except Error Url := m.builder.build

def queryString [Codecs] (m : Message) : Except CodecError (Option Text) :=
  match m.parameters with
  | none => .ok none
  | some params => (Query.format params m.charset).map some

def querySuffix [Codecs] (m : Message) : Except CodecError Text :=
  match m.parameters with
  | none | some [] => .ok []
  | some params => (Query.format params m.charset).map (.char '?' :: ·)

def requestUri [Codecs] (m : Message) : Except CodecError (Option Text) := do
  let suffix ← m.querySuffix
  return if suffix = [] then m.path else some (Text.orNone m.path ++ suffix)

def toText [Codecs] (m : Message) : Except CodecError Text := do
  let suffix ← m.querySuffix
  return m.method ++ .char ' ' :: Text.orNone m.scheme ++ "://".points ++
    Text.orNone (m.authority.map (·.toText)) ++ Text.orNone m.path ++ suffix

def shown [Codecs] (m : Message) : Except CodecError Text := do
  let uri ← m.requestUri
  return "<HttpRequest [".points ++ m.method ++ .char ' ' :: Text.orNone uri ++ "]>".points

end Message

namespace Request

def bare (method charset : Text) : Request :=
  { method, charset, version := none, scheme := none, authority := none, path := none,
    parameters := none, headers := .empty, cache := .empty, compositions := 0 }

def store (r : Request) (url : Url) : Request :=
  { r with cache := r.cache.put ⟨url, r.compositions⟩, compositions := r.compositions + 1 }

def readQuery [Codecs] (raw charset : Text) : Except Error (Option (List Parameter)) :=
  ((Query.parse raw charset).map some).mapError .codec

/-- Takes the components of a reference, and stores the URL that they make up if they do. An empty
path becomes a slash. -/
def takeUrl [Codecs] (r : Request) (url : Url) : Except Error (Request × List Remark) := do
  let parameters ← url.query.elim (.ok r.parameters) fun raw => readQuery raw r.charset
  let r := { r with
    scheme := url.scheme
    authority := Authority.ofUrl? url
    parameters := parameters
    path := some (if url.path = [] then [.char '/'] else url.path)
    cache := r.cache.invalidate }
  match r.compose with
  | .ok composed => return (r.store composed, [])
  | .error (.build why) => return (r, [.notRebuilt url why])
  | .error e => throw e

def ofUrl [Codecs] (method : Option Text) (url : Url) (charset : Text) :
    Except Error (Request × List Remark) :=
  match method with
  | none => .error (.argument .missingMethod)
  | some method => (bare method charset).takeUrl url

/-- A request for a reference that may be missing: the method is looked at first. -/
def ofUrl? [Codecs] (method : Option Text) (url : Option Url) (charset : Text) :
    Except Error (Request × List Remark) :=
  match method, url with
  | none, _ => .error (.argument .missingMethod)
  | some _, none => .error (.argument .missingUri)
  | some method, some url => ofUrl (some method) url charset

/-- A request for a text. One that is no reference is kept whole as the path; without a text the
request has no target. -/
def ofText [Codecs] (method : Option Text) (uri : Option Text) (charset : Text) :
    Except Error (Request × List Remark) :=
  match method, uri with
  | none, _ => .error (.argument .missingMethod)
  | some method, none => .ok (bare method charset, [])
  | some method, some text =>
    match Url.parse text with
    | .ok url => ofUrl (some method) url charset
    | .error (.url _) => .ok ({ bare method charset with path := some text }, [.keptAsPath text])
    | .error e => .error e

inductive QueryInput
  | raw (text : Text)
  | parameters (params : List Parameter)

def QueryInput.read [Codecs] (charset : Text) : QueryInput → Except Error (Option (List Parameter))
  | .raw text => readQuery text charset
  | .parameters params => .ok (some params)

def ofHost [Codecs] (method : Option Text) (host : Option Host) (path : Option Text)
    (query : Option QueryInput) (charset : Text) : Except Error Request :=
  match method with
  | none => .error (.argument .missingMethod)
  | some method => do
    let authority ← host.elim (.ok none) fun h => h.authority.map some
    let parameters ← query.elim (.ok none) (·.read charset)
    return { bare method charset with
      scheme := host.map (·.scheme)
      authority := authority
      path := path
      parameters := parameters }

def makeField (name : Option Text) (value : Datum) : Except Error Field :=
  match name with
  | none => .error (.argument .missingHeaderName)
  | some name => .ok ⟨name, match value with | .absent => [] | d => d.plain⟩

end Request
end HttpUri
