import HttpUri.Request

/-! What can be done to a request, one operation at a time or as a run. -/
namespace HttpUri.Request

/-- Something done to a request. It succeeds or fails, and leaves a request behind either way. -/
abbrev Action := EStateM Error Request

def invalidate : Action Unit := modify fun r => { r with cache := r.cache.invalidate }

def setScheme (scheme : Option Text) : Action Unit := do
  modify fun r => { r with scheme := scheme }
  invalidate

def setAuthority (authority : Option Authority) : Action Unit := do
  modify fun r => { r with authority := authority }
  invalidate

def setPath (path : Option Text) : Action Unit := do
  modify fun r => { r with path := path }
  invalidate

def setParameters (params : Option (List Parameter)) : Action Unit := do
  modify fun r => { r with parameters := params }
  invalidate

/-- Assigns the query parameters that a query string stands for; without one there are none. -/
def setQueryString [Codecs] (raw : Option Text) : Action Unit := do
  let charset := (← get).charset
  let params ← ofExcept (raw.elim (.ok none) fun raw => readQuery raw charset)
  modify fun r => { r with parameters := params }
  invalidate

def addField (name : Option Text) (value : Datum) : Action Unit := do
  let f ← ofExcept (makeField name value)
  modify fun r => { r with headers := r.headers.add f }

/-- Puts a header field of a name and a value of any type in place of the first one of its name. -/
def setField (name : Option Text) (value : Datum) : Action Unit := do
  let f ← ofExcept (makeField name value)
  modify fun r => { r with headers := r.headers.set f }

/-- The URL in store, or a composed one, which is stored. -/
def getUri [Codecs] : Action Composed := do
  let r ← get
  match r.cache.current with
  | some c => return c
  | none =>
    let url ← ofExcept r.compose
    modify fun r => r.store url
    return ⟨url, r.compositions⟩

inductive Getter
  | method
  | version
  | scheme
  | authority
  | path
  | parameters
  | queryString
  | requestUri
  | text
  | shown

inductive Operation
  | setScheme (scheme : Option Text)
  | setAuthority (authority : Option Authority)
  | setPath (path : Option Text)
  | setParameters (params : Option (List Parameter))
  | setQueryString (raw : Option Text)
  | setCharset (charset : Text)
  | setVersion (version : Option Version)
  /-- Changes the list of parameters, if there is one, in place. -/
  | editParameters (change : List Parameter → List Parameter)
  | addField (name : Option Text) (value : Datum)
  | setField (name : Option Text) (value : Datum)
  | editHeaders (e : Headers.Edit)
  | read (g : Getter)
  | getUri

inductive Answer
  | done
  | url (c : Composed)
  | text (s : Option Text)
  | version (v : Option Version)
  | authority (a : Option Authority)
  | parameters (params : Option (List Parameter))

def read [Codecs] (m : Message) : Getter → Except CodecError Answer
  | .method => .ok (.text (some m.method))
  | .version => .ok (.version m.version)
  | .scheme => .ok (.text m.scheme)
  | .authority => .ok (.authority m.authority)
  | .path => .ok (.text m.path)
  | .parameters => .ok (.parameters m.parameters)
  | .queryString => m.queryString.map .text
  | .requestUri => m.requestUri.map .text
  | .text => m.toText.map fun s => .text (some s)
  | .shown => m.shown.map fun s => .text (some s)

def step [Codecs] : Operation → Action Answer
  | .setScheme scheme => do setScheme scheme; return .done
  | .setAuthority authority => do setAuthority authority; return .done
  | .setPath path => do setPath path; return .done
  | .setParameters params => do setParameters params; return .done
  | .setQueryString raw => do setQueryString raw; return .done
  | .setCharset charset => do modify fun r => { r with charset := charset }; return .done
  | .setVersion version => do modify fun r => { r with version := version }; return .done
  | .editParameters change => do
    modify fun r => { r with parameters := r.parameters.map change }
    return .done
  | .addField name value => do addField name value; return .done
  | .setField name value => do setField name value; return .done
  | .editHeaders e => do modify fun r => { r with headers := r.headers.apply e }; return .done
  | .read g => do ofExcept ((read (← get).toMessage g).mapError .codec)
  | .getUri => do return .url (← getUri)

/-- The outcome of an operation on a request, and the request that it leaves behind. -/
def perform [Codecs] (r : Request) (op : Operation) : Except Error Answer × Request :=
  match step op r with
  | .ok a r => (.ok a, r)
  | .error e r => (.error e, r)

def run [Codecs] (r : Request) (ops : List Operation) : Request :=
  ops.foldl (fun r op => (r.perform op).2) r

theorem perform_setQueryString [Codecs] (r : Request) (raw : Text) :
    r.perform (.setQueryString (some raw)) =
      match Query.parse raw r.charset with
      | .ok params =>
        (.ok .done, { r with parameters := some params, cache := r.cache.invalidate })
      | .error e => (.error (.codec e), r) := by
  have hq : readQuery raw r.charset = ((Query.parse raw r.charset).map some).mapError .codec := rfl
  simp only [perform, step, setQueryString, bind, EStateM.bind, get, getThe, MonadStateOf.get]
  unfold EStateM.get
  simp only [Option.elim, hq]
  cases Query.parse raw r.charset <;> rfl

theorem perform_addField [Codecs] (r : Request) (name : Option Text) (value : Datum) :
    r.perform (.addField name value) =
      match makeField name value with
      | .ok f => (.ok .done, { r with headers := r.headers.add f })
      | .error e => (.error e, r) := by
  simp only [perform, step, addField]
  cases makeField name value <;> rfl

theorem perform_setField [Codecs] (r : Request) (name : Option Text) (value : Datum) :
    r.perform (.setField name value) =
      match makeField name value with
      | .ok f => (.ok .done, { r with headers := r.headers.set f })
      | .error e => (.error e, r) := by
  simp only [perform, step, setField]
  cases makeField name value <;> rfl

@[simp] theorem perform_read [Codecs] (r : Request) (g : Getter) :
    r.perform (.read g) = ((read r.toMessage g).mapError .codec, r) := by
  have hs : step (.read g) r =
      (ofExcept ((read r.toMessage g).mapError .codec) : Action Answer) r := rfl
  rw [perform, hs]
  cases read r.toMessage g <;> rfl

theorem perform_getUri [Codecs] (r : Request) :
    r.perform .getUri =
      match r.cache.current, r.compose with
      | some c, _ => (.ok (.url c), r)
      | none, .ok url => (.ok (.url ⟨url, r.compositions⟩), r.store url)
      | none, .error e => (.error e, r) := by
  simp only [perform, step, getUri, bind, EStateM.bind, get, getThe, MonadStateOf.get]
  unfold EStateM.get
  dsimp only
  cases r.cache.current with
  | some c => rfl
  | none => cases r.compose <;> rfl

end HttpUri.Request
