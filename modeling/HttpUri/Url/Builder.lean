import HttpUri.Query
import HttpUri.Url

/-! Composing a URL from its components. -/
namespace HttpUri

/-- Components of a URL to be. Nothing is checked before they are put together; a negative port is
left out. -/
structure Builder where
  scheme : Option Text
  host : Option Text
  port : Int
  path : Option Text
  parameters : Option (List Parameter)
  charset : Text
  deriving DecidableEq, Repr

namespace Builder

def empty (charset : Text) : Builder := ⟨none, none, -1, none, none, charset⟩

/-- Two hexadecimal digits lead the text. -/
def startsPair : Text → Bool
  | high :: low :: _ => Text.isHex high && Text.isHex low
  | _ => false

/-- A percent sign that two hexadecimal digits do not follow becomes the triplet of one. -/
def escapeStray : Text → Text
  | [] => []
  | c :: rest =>
    (if c = '%' ∧ startsPair rest = false then [.char '%', .char '2', .char '5'] else [c]) ++
      escapeStray rest

/-- The bytes that stand for themselves in a path beside the unreserved ones. -/
def isPathSafe (b : UInt8) : Bool := "/:@!$&'()*+,;=~%".points.contains (CodePoint.ofNat b.toNat)

/-- The path as given: after a host it starts with a slash unless it is empty. -/
def rootedPath (b : Builder) : Text :=
  let path := b.path.getD []
  if b.host.isSome ∧ path ≠ [] ∧ path.head? ≠ some (.char '/') then .char '/' :: path else path

/-- A path in its encoded form: triplets stand, and what no path may hold is encoded. -/
def encodePath [Codecs] (charset path : Text) : Except CodecError Text :=
  Percent.encode isPathSafe charset (escapeStray path)

def queryText [Codecs] (b : Builder) : Except CodecError (Option Text) :=
  match b.parameters with
  | none | some [] => .ok none
  | some params => (Query.format params b.charset).map some

def schemeText (b : Builder) : Except Error Text :=
  match b.scheme with
  | none => .ok []
  | some scheme =>
    if Grammar.isScheme scheme then .ok (scheme ++ [.char ':'])
    else .error (.build (.badScheme scheme))

def hostText (b : Builder) : Except Error Text :=
  match b.host with
  | none => .ok []
  | some host =>
    if host ≠ [] && Grammar.isHost host then
      .ok (.char '/' :: .char '/' :: bracketed host ++
        if 0 ≤ b.port then .char ':' :: Numeral.ofInt b.port else [])
    else .error (.build (.badHost host))

/-- The charset's refusal of a character is one to build; an unknown charset stays what it is. -/
def encoding {α : Type} (charset : Text) : Except CodecError α → Except Error α
  | .ok a => .ok a
  | .error (.unencodable run) => .error (.build (.unencodable charset run))
  | .error e => .error (.codec e)

/-- A failure to parse the composed text is a failure to build. -/
def reading (text : Text) : Except Error Url → Except Error Url
  | .error (.url why) => .error (.build (.refused text why))
  | outcome => outcome

/-- Puts the components together and parses the result. -/
def build [Codecs] (b : Builder) : Except Error Url := do
  let scheme ← b.schemeText
  let host ← b.hostText
  let path ← encoding b.charset (encodePath b.charset b.rootedPath)
  let query ← encoding b.charset b.queryText
  if b.host.isNone && (Text.after? [.char '/', .char '/'] path).isSome then
    throw (.build (.slashedPath path))
  let text := scheme ++ host ++ path ++ match query with | some q => .char '?' :: q | none => []
  reading text (Url.parse text)

/-- Something done to a builder. It succeeds or fails, and leaves a builder behind either way. -/
abbrev Action := EStateM Error Builder

inductive Operation
  | setScheme (scheme : Option Text)
  | setHost (host : Option Text)
  | setPort (port : Int)
  | setPath (path : Option Text)
  | setParameters (params : Option (List Parameter))
  | setCharset (charset : Text)
  | build

def step [Codecs] : Operation → Action (Option Url)
  | .setScheme scheme => do modify fun b => { b with scheme := scheme }; return none
  | .setHost host => do modify fun b => { b with host := host }; return none
  | .setPort port => do modify fun b => { b with port := port }; return none
  | .setPath path => do modify fun b => { b with path := path }; return none
  | .setParameters params => do modify fun b => { b with parameters := params }; return none
  | .setCharset charset => do modify fun b => { b with charset := charset }; return none
  | .build => do return some (← ofExcept (← get).build)

/-- The outcome of an operation on a builder, and the builder that it leaves behind. -/
def perform [Codecs] (b : Builder) (op : Operation) : Except Error (Option Url) × Builder :=
  match step op b with
  | .ok url b => (.ok url, b)
  | .error e b => (.error e, b)

@[simp] theorem perform_build [Codecs] (b : Builder) :
    b.perform .build = (b.build.map some, b) := by
  have hstep : step .build b =
      ((do return some (← ofExcept b.build)) : Action (Option Url)) b := rfl
  rw [perform, hstep]
  cases b.build <;> rfl

end Builder
end HttpUri
