import HttpUri.Proofs.Request.Target

/-! Requests made of a text: what each of them says, and that there are no other outcomes. -/
namespace HttpUri

theorem Authority.ofUrl?_of_host {u : Url} {host : Text} (hhost : u.host = some host)
    (hne : host ≠ []) : ∃ a, ofUrl? u = some a ∧ a.hostname = host ∧
      a.port = u.port.elim (-1) Int.ofNat ∧ a.userInfo = u.userInfo := by
  cases hport : u.port with
  | none =>
    refine ⟨⟨host, -1, u.userInfo, hne⟩, ?_, rfl, rfl, rfl⟩
    rw [ofUrl?, hhost, hport]
    simp only [make, dif_neg hne, portDatum]
    rfl
  | some n =>
    refine ⟨⟨host, n, u.userInfo, hne⟩, ?_, rfl, rfl, rfl⟩
    rw [ofUrl?, hhost, hport]
    simp only [make, dif_neg hne, portDatum]
    rfl

namespace Url
variable {s : Text} {u : Url}

theorem host_ne_nil_of_parse (h : parse s = .ok u) : ∀ host ∈ u.host, host ≠ [] := by
  obtain ⟨parts, port, -, -, -, rfl⟩ := parse_eq_ok_iff.1 h
  rintro host hhost rfl
  obtain ⟨hne, heq⟩ := Option.ite_none_left_eq_some.1 hhost
  exact hne (Option.some.inj heq)

theorem port_lt_of_parse (h : parse s = .ok u) : ∀ n ∈ u.port, n < 10 ^ Numeral.digitLimit := by
  obtain ⟨parts, port, -, -, hport, rfl⟩ := parse_eq_ok_iff.1 h
  intro n hn
  have heq : port = some n := hn
  subst heq
  exact lt_of_parsePort hport

end Url

/-- A new message says of its target what the reference says. -/
structure Message.TakenFrom [Codecs] (m : Message) (verb name : Text) (u : Url) : Prop where
  method : m.method = verb
  charset : m.charset = name
  version : m.version = none
  headers : m.headers = .empty
  scheme : m.scheme = u.scheme
  noHost : u.host = none → m.authority = none
  host : ∀ host ∈ u.host, ∃ a, m.authority = some a ∧ a.hostname = host ∧
    a.port = u.port.elim (-1) Int.ofNat ∧ a.userInfo = u.userInfo
  noQuery : u.query = none → m.parameters = none
  query : ∀ raw ∈ u.query, ∃ params, Query.parse raw name = .ok params ∧
    m.parameters = some params
  path : m.path = some (if u.path = [] then [.char '/'] else u.path)

/-- What is taken from a reference is determined by it. -/
theorem Message.TakenFrom.unique [Codecs] {m m' : Message} {verb name : Text} {u : Url}
    (h : m.TakenFrom verb name u) (h' : m'.TakenFrom verb name u) : m = m' := by
  have hauthority : m.authority = m'.authority := by
    cases hhost : u.host with
    | none => rw [h.noHost hhost, h'.noHost hhost]
    | some host =>
      obtain ⟨a, ha, hname, hport, huser⟩ := h.host host hhost
      obtain ⟨b, hb, hname', hport', huser'⟩ := h'.host host hhost
      have hab : a = b := by
        cases a
        cases b
        exact (Authority.mk.injEq ..).mpr ⟨hname.trans hname'.symm, hport.trans hport'.symm,
          huser.trans huser'.symm⟩
      rw [ha, hb, hab]
  have hparameters : m.parameters = m'.parameters := by
    cases hquery : u.query with
    | none => rw [h.noQuery hquery, h'.noQuery hquery]
    | some raw =>
      obtain ⟨params, hparse, hparams⟩ := h.query raw hquery
      obtain ⟨params', hparse', hparams'⟩ := h'.query raw hquery
      rw [hparams, hparams', Except.ok.inj (hparse.symm.trans hparse')]
  cases m
  cases m'
  exact (Message.mk.injEq ..).mpr ⟨h.method.trans h'.method.symm, h.version.trans h'.version.symm,
    h.scheme.trans h'.scheme.symm, hauthority, h.path.trans h'.path.symm, hparameters,
    h.headers.trans h'.headers.symm, h.charset.trans h'.charset.symm⟩

theorem Message.TakenFrom.of_authority [Codecs] {m : Message} {verb name : Text} {u : Url}
    (h : m.TakenFrom verb name u) {a : Authority} (ha : a ∈ m.authority) :
    u.host = some a.hostname ∧ a.port = u.port.elim (-1) Int.ofNat := by
  cases hhost : u.host with
  | none => exact nomatch ha.symm.trans (h.noHost hhost)
  | some host =>
    obtain ⟨b, hb, rfl, hport, -⟩ := h.host host hhost
    obtain rfl : a = b := Option.mem_unique ha hb
    exact ⟨rfl, hport⟩

theorem Message.TakenFrom.port_lt [Codecs] {m : Message} {method charset text : Text} {u : Url}
    (h : m.TakenFrom method charset u) (hu : Url.parse text = .ok u) :
    ∀ a ∈ m.authority, a.port < 10 ^ Numeral.digitLimit := by
  intro a ha
  rw [(h.of_authority ha).2]
  cases hn : u.port with
  | none => exact Numeral.lt_limit_of_neg (by decide)
  | some n =>
    have hlt := Url.port_lt_of_parse hu n hn
    change (n : Int) < 10 ^ Numeral.digitLimit
    exact_mod_cast hlt

namespace Request
variable {charset text : Text} {cs : Charset} {u : Url}

theorem exists_parameters [Codecs] {query : Option Text}
    (hquery : ∀ raw ∈ query, ∃ list, Query.parse raw charset = .ok list) :
    ∃ params, query.elim (.ok none) (fun raw => readQuery raw charset) = .ok params ∧
      (query = none → params = none) ∧
        ∀ raw ∈ query, ∃ list, Query.parse raw charset = .ok list ∧ params = some list := by
  cases query with
  | none => exact ⟨none, rfl, fun _ => rfl, nofun⟩
  | some raw =>
    obtain ⟨list, hlist⟩ := hquery raw rfl
    refine ⟨some list, ?_, nofun, ?_⟩
    · rw [Option.elim_some, readQuery, hlist]
      rfl
    · intro other hother
      obtain rfl : raw = other := Option.some.inj hother
      exact ⟨list, hlist, rfl⟩

/-- What becomes of a message that is taken from a reference: its URL is in store, or the remark is
that it has none, or composing it fails in another way and all fails with it. -/
inductive Settled [Codecs] (u : Url) (m : Message) : Except Error (Request × List Remark) → Prop
  | stored {v : Url} (h : m.compose = .ok v) :
    Settled u m (.ok ({ toMessage := m, cache := ⟨some ⟨v, 0⟩, false⟩, compositions := 1 }, []))
  | remarked {why : BuildError} (h : m.compose = .error (.build why)) :
    Settled u m (.ok ({ toMessage := m, cache := ⟨none, true⟩, compositions := 0 },
      [.notRebuilt u why]))
  | failed {e : Error} (h : m.compose = .error e) (he : ∀ why, e ≠ .build why) :
    Settled u m (.error e)

/-- A new request takes all that a reference says, if the query can be read. -/
theorem exists_settled [Codecs] (method : Text) (hu : Url.parse text = .ok u)
    (hquery : ∀ raw ∈ u.query, ∃ list, Query.parse raw charset = .ok list) :
    ∃ m : Message, m.TakenFrom method charset u ∧
      Settled u m ((bare method charset).takeUrl u) := by
  obtain ⟨params, hparams, hnone, hsome⟩ := exists_parameters hquery
  let m : Message := { (bare method charset).toMessage with
    scheme := u.scheme
    authority := Authority.ofUrl? u
    parameters := params
    path := some (if u.path = [] then [.char '/'] else u.path) }
  have htaken : m.TakenFrom method charset u := by
    refine ⟨rfl, rfl, rfl, rfl, rfl, ?_, ?_, hnone, hsome, rfl⟩
    · intro hhost
      change Authority.ofUrl? u = none
      rw [Authority.ofUrl?, hhost]
    · exact fun host hhost =>
        Authority.ofUrl?_of_host hhost (Url.host_ne_nil_of_parse hu host hhost)
  have hread : u.query.elim (.ok (bare method charset).parameters)
      (fun raw => readQuery raw (bare method charset).charset) = .ok params := hparams
  refine ⟨m, htaken, ?_⟩
  rw [takeUrl, hread]
  dsimp only [bind, Except.bind]
  split
  · next v hm => exact .stored (m := m) hm
  · next why hm => exact .remarked (m := m) hm
  · next e hbuild hm => exact .failed (m := m) hm hbuild

theorem takeUrl_of_unread [Codecs] (method : Text) {raw : Text} {d : CodecError}
    (hraw : u.query = some raw) (h : Query.parse raw charset = .error d) :
    (bare method charset).takeUrl u = .error (.codec d) := by
  have hread : u.query.elim (.ok (bare method charset).parameters)
      (fun raw => readQuery raw (bare method charset).charset) = .error (.codec d) := by
    rw [hraw, Option.elim_some, readQuery]
    change ((Query.parse raw charset).map some).mapError Error.codec = _
    rw [h]
    rfl
  exact Outcome.bind_eq_error.2 (.inl hread)

theorem takeUrl_of_parse [Codecs] (hcs : Charset.ofName? charset = some cs) (method : Text)
    (hu : Url.parse text = .ok u) : ∃ m : Message, m.TakenFrom method charset u ∧
      ((∃ v, m.compose = .ok v ∧ (bare method charset).takeUrl u =
          .ok ({ toMessage := m, cache := ⟨some ⟨v, 0⟩, false⟩, compositions := 1 }, [])) ∨
        ∃ why, m.compose = .error (.build why) ∧ (bare method charset).takeUrl u =
          .ok ({ toMessage := m, cache := ⟨none, true⟩, compositions := 0 },
            [.notRebuilt u why])) := by
  have hname := Codec.find_of_ofName? hcs
  obtain ⟨m, htaken, hm⟩ := exists_settled method hu fun raw _ =>
    Query.exists_parse hname cs.readsAll raw
  refine ⟨m, htaken, ?_⟩
  generalize (bare method charset).takeUrl u = outcome at hm ⊢
  cases hm with
  | stored h => exact .inl ⟨_, h, rfl⟩
  | remarked h => exact .inr ⟨_, h, rfl⟩
  | failed h he =>
    obtain ⟨why, hwhy⟩ := Message.compose_eq_error (htaken.charset ▸ hcs) (htaken.port_lt hu) h
    exact absurd hwhy (he why)

theorem ofText_of_parse [Codecs] (method : Text) (hu : Url.parse text = .ok u) :
    ofText (some method) (some text) charset = (bare method charset).takeUrl u := by
  simp only [ofText, hu]
  rfl

theorem ofText_of_refused [Codecs] (method : Text) {why : UrlError}
    (h : Url.parse text = .error (.url why)) : ofText (some method) (some text) charset =
      .ok ({ bare method charset with path := some text }, [.keptAsPath text]) := by
  simp only [ofText, h]

theorem ofText_of_digits [Codecs] (method : Text) {n : Nat}
    (h : Url.parse text = .error (.tooManyDigits n)) :
    ofText (some method) (some text) charset = .error (.tooManyDigits n) := by
  simp only [ofText, h]

theorem ofText_of_failed [Codecs] {method : Text} {m : Message} {e : Error}
    (hu : Url.parse text = .ok u) (hm : m.TakenFrom method charset u)
    (hcompose : m.compose = .error e) (hbuild : ∀ why, e ≠ .build why) :
    ofText (some method) (some text) charset = .error e := by
  obtain ⟨n, hn, hsettled⟩ := exists_settled method hu fun raw hraw =>
    (hm.query raw hraw).imp fun _ h => h.1
  obtain rfl := hn.unique hm
  rw [ofText_of_parse method hu]
  generalize (bare method charset).takeUrl u = outcome at hsettled ⊢
  cases hsettled with
  | stored h => exact nomatch hcompose.symm.trans h
  | remarked h => exact absurd (Except.error.inj (hcompose.symm.trans h)) (hbuild _)
  | failed h => rw [Except.error.inj (hcompose.symm.trans h)]

/-- Why no request is made of a text: it has no fault but a port of too many digits; or the query
cannot be read; or composing the URL fails by the codec's fault, or for a port of too many digits in
an encoded path that is not read as one. -/
inductive Unmade [Codecs] (codec : Codec) (charset verb text : Text) : Error → Prop
  | digits {parts : UrlParts} {d : Text} (href : Grammar.isReference text = true)
    (hparts : UrlParts.ofText text = .ok parts)
    (hd : (AuthorityParts.ofText parts.authority).port = some d)
    (hdigits : Numeral.isDigits d = true) (hlong : Numeral.digitLimit < d.length) :
    Unmade codec charset verb text (.tooManyDigits d.length)
  | unread {u : Url} {raw : Text} {d : CodecError} (hu : Url.parse text = .ok u)
    (hraw : u.query = some raw) (hd : Query.parse raw charset = .error d) :
    Unmade codec charset verb text (.codec d)
  | refused {u : Url} {m : Message} {t : Text} {d : CodecError} (hu : Url.parse text = .ok u)
    (hm : m.TakenFrom verb charset u) (hcompose : m.compose = .error (.codec d))
    (hd : codec.encode t = .error d) (hno : ¬ d.IsUnencodable) :
    Unmade codec charset verb text (.codec d)
  | strayed {u : Url} {m : Message} {given path : Text} {n : Nat} (hu : Url.parse text = .ok u)
    (hm : m.TakenFrom verb charset u) (hcompose : m.compose = .error (.tooManyDigits n))
    (hgiven : Message.Rooted m.path given) (hpath : Builder.encodePath charset given = .ok path)
    (hno : ¬ m.ReadsAsPath path) : Unmade codec charset verb text (.tooManyDigits n)

/-- A request is not made just for one of these reasons. -/
theorem ofText_eq_error_iff [Codecs] {codec : Codec} (hname : Codec.find charset = .ok codec)
    (method : Text) {e : Error} :
    ofText (some method) (some text) charset = .error e ↔
      Unmade codec charset method text e := by
  constructor
  · intro he
    cases hparse : Url.parse text with
    | error d =>
      rcases Url.parse_eq_error hparse with ⟨why, rfl⟩ | ⟨parts, href, hparts, t, ht, hdigits,
        hlong, rfl⟩
      · exact nomatch he.symm.trans (ofText_of_refused method hparse)
      · obtain rfl := Except.error.inj (he.symm.trans (ofText_of_digits method hparse))
        exact .digits href hparts ht hdigits hlong
    | ok u =>
      rw [ofText_of_parse method hparse] at he
      by_cases hquery : ∀ raw ∈ u.query, ∃ list, Query.parse raw charset = .ok list
      · obtain ⟨m, hm, hsettled⟩ := exists_settled method hparse hquery
        rw [he] at hsettled
        cases hsettled with
        | failed hcompose hbuild =>
          have hown : Codec.find m.charset = .ok codec := hm.charset ▸ hname
          rcases Message.compose_cases hown (hm.port_lt hparse) with ⟨v, hv⟩ | ⟨why, hwhy⟩ |
            ⟨d, hd, hno, t, ht⟩ | ⟨n, given, path, hn, hgiven, hpath, hno⟩
          · exact nomatch hcompose.symm.trans hv
          · exact absurd (Except.error.inj (hcompose.symm.trans hwhy)) (hbuild why)
          · obtain rfl := Except.error.inj (hcompose.symm.trans hd)
            exact .refused hparse hm hcompose ht hno
          · obtain rfl := Except.error.inj (hcompose.symm.trans hn)
            exact .strayed hparse hm hcompose hgiven (hm.charset ▸ hpath) hno
      · push Not at hquery
        obtain ⟨raw, hraw, hno⟩ := hquery
        cases hd : Query.parse raw charset with
        | ok list => exact absurd hd (hno list)
        | error d =>
          obtain rfl := Except.error.inj (he.symm.trans (takeUrl_of_unread method hraw hd))
          exact .unread hparse hraw hd
  · intro h
    cases h with
    | digits href hparts hd hdigits hlong =>
      exact ofText_of_digits method (Url.parse_of_long href hparts hd hdigits hlong)
    | unread hu hraw hd =>
      rw [ofText_of_parse method hu]
      exact takeUrl_of_unread method hraw hd
    | refused hu hm hcompose => exact ofText_of_failed hu hm hcompose nofun
    | strayed hu hm hcompose => exact ofText_of_failed hu hm hcompose nofun

/-- With a codec that reads all bytes, refuses characters only and keeps slashes, no request is made
of a text just if it has no fault but a port of too many digits. -/
theorem unmade_iff [Codecs] {codec : Codec} (hname : Codec.find charset = .ok codec)
    (hreads : codec.ReadsAll) (hblames : codec.BlamesCharacters) (hkeeps : codec.KeepsSlash)
    {verb : Text} {e : Error} : Unmade codec charset verb text e ↔ ∃ parts,
      Grammar.isReference text = true ∧ UrlParts.ofText text = .ok parts ∧
        ∃ d ∈ (AuthorityParts.ofText parts.authority).port, Numeral.isDigits d = true ∧
          Numeral.digitLimit < d.length ∧ e = .tooManyDigits d.length := by
  constructor
  · intro h
    cases h with
    | digits href hparts hd hdigits hlong =>
      exact ⟨_, href, hparts, _, hd, hdigits, hlong, rfl⟩
    | unread hu hraw hd =>
      obtain ⟨list, hlist⟩ := Query.exists_parse hname hreads _
      exact nomatch hd.symm.trans hlist
    | refused hu hm hcompose hd hno => exact absurd (hblames _ _ hd) hno
    | strayed hu hm hcompose hgiven hpath hno =>
      rw [← hm.charset] at hname hpath
      exact absurd (Message.readsAsPath_of_slash hname hkeeps hgiven hpath) hno
  · rintro ⟨parts, href, hparts, d, hd, hdigits, hlong, rfl⟩
    exact .digits href hparts hd hdigits hlong

/-- A text that does not parse is kept as the path. Of one that does, the request takes all that it
says, and composes the URL anew; if that fails to build, it is remarked. What else can happen is the
failure of a port with too many digits, and of a codec that does not read all bytes, refuses more
than characters or moves slashes. -/
theorem ofText_outcomes [Codecs] {codec : Codec} (hname : Codec.find charset = .ok codec)
    (method text : Text) :
    let outcome := ofText (some method) (some text) charset
    (∀ why, Url.parse text = .error (.url why) → outcome = .ok (
      { method := method, version := none, scheme := none, authority := none, path := some text
        parameters := none, headers := .empty, charset := charset
        cache := ⟨none, true⟩, compositions := 0 }, [.keptAsPath text])) ∧
    (∀ u, Url.parse text = .ok u →
      (∀ raw ∈ u.query, ∃ list, Query.parse raw charset = .ok list) →
        ∃ m : Message, m.TakenFrom method charset u ∧ Settled u m outcome) ∧
    (∀ e, outcome = .error e ↔ Unmade codec charset method text e) ∧
    (codec.ReadsAll → codec.BlamesCharacters → codec.KeepsSlash → ∀ e, outcome = .error e ↔
      ∃ parts, Grammar.isReference text = true ∧ UrlParts.ofText text = .ok parts ∧
        ∃ d ∈ (AuthorityParts.ofText parts.authority).port, Numeral.isDigits d = true ∧
          Numeral.digitLimit < d.length ∧ e = .tooManyDigits d.length) := by
  intro outcome
  refine ⟨fun why => ofText_of_refused method, fun u hu hquery => ?_,
    fun e => ofText_eq_error_iff hname method, fun hreads hblames hkeeps e => ?_⟩
  · have hout : outcome = (bare method charset).takeUrl u := ofText_of_parse method hu
    rw [hout]
    exact exists_settled method hu hquery
  · exact (ofText_eq_error_iff hname method).trans (unmade_iff hname hreads hblames hkeeps)

/-- User info that the composed URL leaves out, an empty path, and a query in a charset given by an
alias. -/
theorem ofText_outcomes_of_reference :
    let text := "//me@h:8?a+b".points
    ∃ u m v, Url.parse text = .ok u ∧ Message.TakenFrom m "G".points "utf8".points u ∧
      m.path = some [.char '/'] ∧ m.compose = .ok v ∧
        ofText (some "G".points) (some text) "utf8".points =
          .ok ({ toMessage := m, cache := ⟨some ⟨v, 0⟩, false⟩, compositions := 1 }, []) := by
  intro text
  have hcs : Charset.ofName? "utf8".points = some .utf8 := by decide
  have hpath : (Url.parse text).toOption.map (·.path) = some [] := by decide +kernel
  have hquiet : (ofText (some "G".points) (some text) "utf8".points).toOption.map (·.2.length) =
      some 0 := by decide +kernel
  cases hu : Url.parse text with
  | error e =>
    rw [hu] at hpath
    exact nomatch hpath
  | ok u =>
    rw [hu] at hpath
    have hempty : u.path = [] := Option.some.inj hpath
    have hname := Codec.find_of_ofName? hcs
    obtain ⟨m, htaken, hsettled⟩ := (ofText_outcomes hname "G".points text).2.1 u hu fun raw _ =>
      Query.exists_parse hname Charset.utf8.readsAll raw
    generalize ofText (some "G".points) (some text) "utf8".points = outcome at hquiet hsettled ⊢
    cases hsettled with
    | stored hm => exact ⟨u, m, _, rfl, htaken, by rw [htaken.path, if_pos hempty], hm, rfl⟩
    | remarked _ => exact absurd (Option.some.inj hquiet) Nat.one_ne_zero
    | failed _ _ => exact nomatch hquiet

/-- A codec that blames no character makes the failure its own, and no request is made. -/
theorem not_made_of_codec : ∃ codec u e, Codec.find "undefined".points = .ok codec ∧
    Url.parse "/a".points = .ok u ∧
      ofText (some "G".points) (some "/a".points) "undefined".points = .error (.codec e) := by
  have hok : (Url.parse "/a".points).isOk = true := by decide +kernel
  obtain ⟨u, hu⟩ := Outcome.exists_of_isOk hok
  exact ⟨NoCodec.codec "undefined".points, u,
    NoCodec.failure "encoding".points "undefined".points, Codec.find_undefined, hu,
    by rfl⟩

end Request
end HttpUri
