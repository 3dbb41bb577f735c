import HttpUri.Proofs.Authority.Accepted
import HttpUri.Proofs.Host.RoundTrip
import HttpUri.Proofs.Request.Decomposition
import HttpUri.Proofs.Request.Rendering

/-! A request made of a host and a request made of the text of the host with a path and a query. -/
namespace HttpUri

theorem Ip.isAscii_of_isAddressChar {c : CodePoint} (h : isAddressChar c = true) :
    Percent.isAscii c = true := by
  simp only [isAddressChar, Bool.or_eq_true, decide_eq_true_eq] at h
  rcases h with (hhex | rfl) | rfl
  · exact Text.isAscii_of_isHex hhex
  · rfl
  · rfl

namespace Host
open AuthorityParts
variable {s : Text} {p : Option Text}

/-- The name reads as it is written: it is a registered name in ASCII, or an address that stands
without brackets and names no zone. -/
def PlainName (s : Text) : Prop :=
  (Grammar.isEncoded Grammar.isNameChar s = true ∧ ∀ c ∈ s, Percent.isAscii c = true) ∨
    (Ip.isIpv6 s = true ∧ .char '%' ∉ s)

theorem PlainName.accepted (hs : PlainName s) (hp : p.all (·.all CodePoint.isDigit) = true) :
    Accepted (bracketed s ++ portText p) s p :=
  Standing.accepted (hs.imp (·.1) fun hip => enclosable_of_not_mem hip.1 hip.2) hp

theorem PlainName.isAscii (hs : PlainName s) : ∀ c ∈ s, Percent.isAscii c = true := by
  rcases hs with ⟨-, hascii⟩ | ⟨hip, hzone⟩
  · exact hascii
  · exact fun c hc => Ip.isAscii_of_isAddressChar ((Ip.forall_of_isIpv6 hip hzone).1 c hc)

end Host

namespace Builder
variable {b : Builder} {n host path : Text} {raw : Option Text}

/-- Scheme, plain name and port come back from the text of them with a path and a query, and so do
these. -/
theorem parse_composed (hscheme : b.scheme = some n) (hn : Grammar.isScheme n = true)
    (hhost : b.host = some host) (hne : host ≠ []) (hplain : Host.PlainName host)
    (hport : b.port < 10 ^ Numeral.digitLimit) (hslash : path.head? = some (.char '/'))
    (hpath : Grammar.isEncoded Grammar.isPathChar path = true)
    (hquery : ∀ q ∈ raw, Grammar.isEncoded Grammar.isQueryChar q = true) :
    ∃ u, Url.parse (b.composed path raw).toText = .ok u ∧ u.scheme = some n ∧ u.userInfo = none ∧
      u.host = some host ∧ u.port = (if 0 ≤ b.port then some b.port.toNat else none) ∧
        u.path = path ∧ u.query = raw := by
  obtain ⟨t, rfl⟩ := List.head?_eq_some_iff.1 hslash
  let a := bracketed host ++ AuthorityParts.portText b.portDigits
  have hlocation : b.location = some a := by
    rw [location, hhost]
    rfl
  have hacc : AuthorityParts.Accepted a host b.portDigits := hplain.accepted b.all_portDigits
  have hsep := Components.separated_of_accepted hn hacc (.inr ⟨t, rfl⟩) hpath hquery
  have hfits := Components.fits_of_accepted hn hacc
    (.inr (List.cons_ne_nil (.char '/') t)) hpath hquery
  have hascii : ∀ c ∈ a, Percent.isAscii c = true := fun c hc =>
    (AuthorityParts.mem_bracketed_portText b.all_portDigits hc).elim (hplain.isAscii c) id
  have hdigits : ∀ d ∈ b.portDigits, Numeral.isDigits d = true ∧ d.length ≤ Numeral.digitLimit :=
    fun d hd => ⟨(Option.all_eq_true _ _).1 b.all_portDigits d hd,
      length_of_mem_portDigits hport hd⟩
  have hparts : (AuthorityParts.ofText a).port = b.portDigits := by rw [hacc.parts]
  obtain ⟨u, hu⟩ := Url.exists_parse hsep hfits hacc.unbroken hacc.brackets
    (UrlParts.checkLookalikes_of_ascii hascii) (hparts ▸ hdigits)
  have hread := Url.parse_eq_ok (Components.ofText_toText hsep) hu
  simp only [Option.getD_some, hacc.unbroken, hacc.parts, if_neg hne] at hread
  obtain ⟨-, -, hnumber, hsc, huser, hname, hp, hq, -⟩ := hread
  rw [composed, hscheme, hlocation]
  exact ⟨u, hu, hsc, huser, hname, parsePort_portDigits hnumber, hp, hq⟩

end Builder

namespace Request
variable {h : Host} {port : Int} {path charset : Text} {raw : Option Text} {cs : Charset}

/-- The text of a host reads as what it was made of, and so do a path and a query behind it that fit
the grammar. -/
theorem exists_parse_toUri (hscheme : Grammar.isScheme h.scheme = true)
    (hname : Host.PlainName h.hostname) (hport : h.port = .whole port) (hlow : -1 ≤ port)
    (hhigh : port < 10 ^ Numeral.digitLimit) (hslash : path.head? = some (.char '/'))
    (hpath : Grammar.isEncoded Grammar.isPathChar path = true)
    (hquery : ∀ q ∈ raw, Grammar.isEncoded Grammar.isQueryChar q = true) :
    ∃ uri u, h.toUri = .ok uri ∧ Url.parse (uri ++ path ++ Components.queryText raw) = .ok u ∧
      u.scheme = some h.scheme ∧ u.userInfo = none ∧ u.host = some h.hostname ∧
        port = u.port.elim (-1) Int.ofNat ∧ u.path = path ∧ u.query = raw := by
  obtain ⟨-, huri⟩ := Host.toUri_of_whole hport
  let a : Authority := ⟨h.hostname, port, none, h.named⟩
  let m : Message := { (bare [] []).toMessage with scheme := some h.scheme, authority := some a }
  have hbelow : m.builder.port < 10 ^ Numeral.digitLimit :=
    Message.port_builder_lt fun b hb => by
      obtain rfl : a = b := Option.some.inj hb
      exact hhigh
  obtain ⟨u, hu, hsc, huser, hhost, hnumber, hp, hq⟩ := Builder.parse_composed (b := m.builder)
    rfl hscheme rfl h.named hname hbelow hslash hpath hquery
  have htext : (m.builder.composed path raw).toText =
      h.scheme ++ "://".points ++ a.toText ++ path ++ Components.queryText raw := by
    have hlocation : Components.authorityText m.builder.location = "//".points ++ a.toText :=
      Message.authorityText_builder (m := m) (a := a) rfl
    have hcolon : Components.schemeText (some h.scheme) = h.scheme ++ [.char ':'] := rfl
    change Components.schemeText (some h.scheme) ++ Components.authorityText m.builder.location ++
      path ++ Components.queryText raw ++ [] = _
    rw [hlocation, hcolon]
    simp [String.points, List.append_assoc]
  have hback : port = u.port.elim (-1) Int.ofNat := by
    have hbuilder : m.builder.port = if 0 ≤ port then port else -1 := rfl
    rw [hnumber, hbuilder]
    by_cases hgiven : 0 ≤ port
    · rw [if_pos hgiven, if_pos hgiven]
      exact (Int.toNat_of_nonneg hgiven).symm
    · rw [if_neg hgiven, if_neg (by decide)]
      change port = -1
      omega
  exact ⟨_, u, huri, htext ▸ hu, hsc, huser, hhost, hback, hp, hq⟩

theorem exists_takenFrom [Codecs] {u : Url}
    (hread : ∀ q ∈ raw, ∃ list, Query.parse q charset = .ok list) (hport : h.port = .whole port)
    (hslash : path.head? = some (.char '/')) (hsc : u.scheme = some h.scheme)
    (huser : u.userInfo = none)
    (hhost : u.host = some h.hostname) (hback : port = u.port.elim (-1) Int.ofNat)
    (hp : u.path = path) (hq : u.query = raw) (method : Text) :
    ∃ m, Message.TakenFrom m method charset u ∧
      ofHost (some method) (some h) (some path) (raw.map .raw) charset =
        .ok { toMessage := m, cache := .empty, compositions := 0 } := by
  obtain ⟨params, hparams, hnone, hsome⟩ := exists_parameters hread
  obtain ⟨hauthority, -⟩ := Host.toUri_of_whole hport
  let a : Authority := ⟨h.hostname, port, none, h.named⟩
  let m : Message := { (bare method charset).toMessage with
    scheme := some h.scheme, authority := some a, path := some path, parameters := params }
  have hne : path ≠ [] := by
    rintro rfl
    exact absurd hslash (by decide)
  refine ⟨m, ?_, ?_⟩
  · refine ⟨rfl, rfl, rfl, rfl, hsc.symm, fun hno => ?_, fun host hh => ?_, fun hno => ?_,
      fun q hh => ?_, ?_⟩
    · exact absurd (hhost.symm.trans hno) (by simp)
    · obtain rfl : h.hostname = host := Option.some.inj (hhost.symm.trans hh)
      exact ⟨a, rfl, rfl, hback, huser.symm⟩
    · exact hnone (hq.symm.trans hno)
    · exact hsome q (hq.symm.trans hh)
    · rw [hp, if_neg hne]
  · have hparsed : (raw.map QueryInput.raw).elim (.ok none) (·.read charset) = .ok params := by
      rw [← hparams]
      cases raw <;> rfl
    refine Outcome.bind_eq_ok.2 ⟨some a, ?_, Outcome.bind_eq_ok.2 ⟨params, hparsed, rfl⟩⟩
    exact Outcome.map_eq_ok.2 ⟨a, hauthority, rfl⟩

theorem ofHost_of_unread [Codecs] (hport : h.port = .whole port) {q : Text} {d : CodecError}
    (hq : Query.parse q charset = .error d) (method : Text) :
    ofHost (some method) (some h) (some path) (some (.raw q)) charset = .error (.codec d) := by
  obtain ⟨hauthority, -⟩ := Host.toUri_of_whole hport
  have hread : QueryInput.read charset (.raw q) = .error (.codec d) := by
    change ((Query.parse q charset).map some).mapError Error.codec = _
    rw [hq]
    rfl
  refine Outcome.bind_eq_error.2 (.inr ⟨some _, Outcome.map_eq_ok.2 ⟨_, hauthority, rfl⟩, ?_⟩)
  exact Outcome.bind_eq_error.2 (.inl hread)

/-- A request made of a host with a path and a query says what one says that is made of the text of
them, and both have one URL or none. If the query cannot be read, neither is made; and if composing
the URL fails otherwise than to build, the request is not made of the text, and the other one fails
so when it is asked for its URL. The latter does not happen with a codec that reads all bytes,
refuses characters only and keeps slashes. -/
theorem ofText_toUri [Codecs] (hscheme : Grammar.isScheme h.scheme = true)
    (hname : Host.PlainName h.hostname) (hport : h.port = .whole port) (hlow : -1 ≤ port)
    (hhigh : port < 10 ^ Numeral.digitLimit) (hslash : path.head? = some (.char '/'))
    (hpath : Grammar.isEncoded Grammar.isPathChar path = true)
    (hquery : ∀ q ∈ raw, Grammar.isEncoded Grammar.isQueryChar q = true) (method : Text) :
    ∃ uri, h.toUri = .ok uri ∧
      let made := ofText (some method) (some (uri ++ path ++ Components.queryText raw)) charset
      let copied := ofHost (some method) (some h) (some path) (raw.map .raw) charset
      (∀ q d, raw = some q → Query.parse q charset = .error d →
        made = .error (.codec d) ∧ copied = .error (.codec d)) ∧
      ((∀ q ∈ raw, ∃ list, Query.parse q charset = .ok list) → ∃ r', copied = .ok r' ∧
        ((∃ r remarks, made = .ok (r, remarks) ∧ r.scheme = r'.scheme ∧
            r.authority = r'.authority ∧ r.path = r'.path ∧ r.parameters = r'.parameters ∧
            ((∃ c d, (r.perform .getUri).1 = .ok (.url c) ∧
                (r'.perform .getUri).1 = .ok (.url d) ∧ c.url = d.url) ∨
              ∃ why, (r.perform .getUri).1 = .error (.build why) ∧
                (r'.perform .getUri).1 = .error (.build why))) ∨
          ∃ e, made = .error e ∧ (r'.perform .getUri).1 = .error e ∧ ∀ why, e ≠ .build why)) ∧
      ∀ codec, Codec.find charset = .ok codec → codec.ReadsAll → codec.BlamesCharacters →
        codec.KeepsSlash → (∀ q ∈ raw, ∃ list, Query.parse q charset = .ok list) ∧
          ∃ result, made = .ok result := by
  obtain ⟨uri, u, huri, hu, hsc, huser, hhost, hback, hp, hq⟩ :=
    exists_parse_toUri hscheme hname hport hlow hhigh hslash hpath hquery
  refine ⟨uri, huri, ?_⟩
  rw [ofText_of_parse method hu]
  intro made copied
  refine ⟨fun q d hraw hd => ⟨?_, ?_⟩, fun hread => ?_, fun codec hfind hreads hblames hkeeps => ?_⟩
  · exact takeUrl_of_unread method (hq.trans hraw) hd
  · subst hraw
    exact ofHost_of_unread hport hd method
  · obtain ⟨m, hm, hcopied⟩ :=
      exists_takenFrom hread hport hslash hsc huser hhost hback hp hq method
    obtain ⟨m', hm', hsettled⟩ := exists_settled method hu fun q h => hread q (hq ▸ h)
    obtain rfl := hm.unique hm'
    change Settled u m made at hsettled
    refine ⟨_, hcopied, ?_⟩
    clear_value made
    cases hsettled with
    | @stored v hv =>
      refine .inl ⟨_, _, rfl, rfl, rfl, rfl, rfl, .inl ⟨⟨v, 0⟩, ⟨v, 0⟩, ?_, ?_, rfl⟩⟩
      · rw [perform_getUri]
        rfl
      · rw [perform_getUri, hv]
        rfl
    | @remarked why hwhy =>
      refine .inl ⟨_, _, rfl, rfl, rfl, rfl, rfl, .inr ⟨why, ?_, ?_⟩⟩
      · rw [perform_getUri, hwhy]
        rfl
      · rw [perform_getUri, hwhy]
        rfl
    | @failed e he hbuild =>
      refine .inr ⟨e, rfl, ?_, hbuild⟩
      rw [perform_getUri, he]
      rfl
  · refine ⟨fun q _ => Query.exists_parse hfind hreads q, ?_⟩
    cases hmade : made with
    | ok result => exact ⟨result, rfl⟩
    | error e =>
      have hunmade := (ofText_eq_error_iff hfind method).1 ((ofText_of_parse method hu).trans hmade)
      obtain ⟨parts, href, hparts, d, hd, hdigits, hlong, -⟩ :=
        (unmade_iff hfind hreads hblames hkeeps).1 hunmade
      exact nomatch hu.symm.trans (Url.parse_of_long href hparts hd hdigits hlong)

/-- An address and a port, a path of two slashes, and a query with an empty piece and a triplet. -/
theorem ofText_toUri_of_address :
    let h : Host := ⟨"::1".points, .whole 8080, "https".points, by decide⟩
    let text := "https://[::1]:8080//a%2Fb;c?x=%FF+y&&z".points
    ∃ r remarks r', ofText (some "G".points) (some text) "latin-1".points = .ok (r, remarks) ∧
      ofHost (some "G".points) (some h) (some "//a%2Fb;c".points) (some (.raw "x=%FF+y&&z".points))
        "latin-1".points = .ok r' ∧
      r.authority = r'.authority ∧ r.path = r'.path ∧ r.parameters = r'.parameters ∧
      ∃ c d, (r.perform .getUri).1 = .ok (.url c) ∧ (r'.perform .getUri).1 = .ok (.url d) ∧
        c.url = d.url := by
  intro h text
  have hcs : Charset.ofName? "latin-1".points = some .latin1 := rfl
  have hslash : "//a%2Fb;c".points.head? = some (.char '/') := rfl
  have hport : (8080 : Int) < 10 ^ Numeral.digitLimit := by
    calc (8080 : Int)
        < 10 ^ 4 := by decide
      _ ≤ 10 ^ Numeral.digitLimit := pow_le_pow_right₀ (by decide) (by decide)
  have hquery : ∀ q ∈ some "x=%FF+y&&z".points, Grammar.isEncoded Grammar.isQueryChar q = true := by
    intro q hq
    obtain rfl : "x=%FF+y&&z".points = q := Option.some.inj hq
    rfl
  have hok : ((ofText (some "G".points) (some text) "latin-1".points).toOption.map fun p =>
      (p.1.perform .getUri).1.isOk) = some true := by decide +kernel
  obtain ⟨uri, huri, -, hagree, -⟩ :=
    @ofText_toUri h 8080 _ "latin-1".points _ _ rfl (.inr ⟨by decide, by decide⟩) rfl (by decide)
      hport hslash rfl hquery "G".points
  obtain rfl : "https://[::1]:8080".points = uri := Except.ok.inj huri
  obtain ⟨r', hhost, hmade⟩ := hagree fun q _ =>
    Query.exists_parse (Codec.find_of_ofName? hcs) Charset.latin1.readsAll q
  change (ofText (some "G".points) (some text) "latin-1".points).toOption.map _ = some true at hok
  change (∃ r remarks, ofText (some "G".points) (some text) "latin-1".points =
    .ok (r, remarks) ∧ _) ∨
    ∃ e, ofText (some "G".points) (some text) "latin-1".points = .error e ∧ _ at hmade
  rcases hmade with ⟨r, remarks, htext, -, hauthority, hpath, hparameters, hurl⟩ | ⟨e, he, -⟩
  · refine ⟨r, remarks, r', htext, hhost, hauthority, hpath, hparameters, ?_⟩
    rcases hurl with hboth | ⟨why, hwhy, -⟩
    · exact hboth
    · rw [htext] at hok
      have hurl : (r.perform .getUri).1.isOk = true := Option.some.inj hok
      rw [hwhy] at hurl
      exact absurd hurl Bool.false_ne_true
  · rw [he] at hok
    exact nomatch hok

/-- With a codec that writes nothing, a request is made of the host and not of its text. -/
theorem not_made_of_text :
    let h : Host := ⟨[.char 'h'], .whole (-1), "http".points, by decide⟩
    ∃ codec e r', Codec.find "undefined".points = .ok codec ∧ h.toUri = .ok "http://h".points ∧
      ofText (some "G".points) (some "http://h/a".points) "undefined".points = .error (.codec e) ∧
        ofHost (some "G".points) (some h) (some "/a".points) none "undefined".points = .ok r' :=
  ⟨NoCodec.codec "undefined".points, NoCodec.failure "encoding".points "undefined".points, _,
    Codec.find_undefined, by rfl, by rfl, by rfl⟩

end Request
end HttpUri
