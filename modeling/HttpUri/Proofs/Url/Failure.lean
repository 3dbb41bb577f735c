import HttpUri.Proofs.Authority.Accepted
import HttpUri.Proofs.Url.Composition
import HttpUri.Proofs.Url.Path

/-! Why a builder makes no URL: the checks in their order, and what each refusal is due to. -/
namespace HttpUri

theorem Url.parse_eq_error_cases {s : Text} {e : Error} (h : parse s = .error e) :
    (∃ why, e = .url why) ∨ ∃ n, e = .tooManyDigits n := by
  rcases parse_eq_error h with hwhy | ⟨-, -, -, d, -, -, -, rfl⟩
  · exact .inl hwhy
  · exact .inr ⟨_, rfl⟩

/-- An authority can be no more than a port, which can be too long. -/
theorem Url.parse_of_long_port {n d : Text} (hn : Grammar.isScheme n = true)
    (hdigits : Numeral.isDigits d = true) (hlong : Numeral.digitLimit < d.length) :
    parse (n ++ .char ':' :: .char '/' :: .char '/' :: .char ':' :: d) =
      .error (.tooManyDigits d.length) := by
  have hport : (some d).all (·.all CodePoint.isDigit) = true := hdigits
  have hacc : AuthorityParts.Accepted (.char ':' :: d) [] (some d) :=
    AuthorityParts.accepted_name (t := []) rfl hport
  have hascii := AuthorityParts.isAscii_portText hport
  let c : Components := ⟨some n, some (.char ':' :: d), [], none, none⟩
  have htext : c.toText = n ++ .char ':' :: .char '/' :: .char '/' :: .char ':' :: d := by
    simp [c, Components.toText, Components.schemeText, Components.authorityText,
      Components.queryText, Components.fragmentText]
  have hquery : ∀ q ∈ c.query, Grammar.isEncoded Grammar.isQueryChar q = true := fun q hq =>
    absurd hq (Option.not_mem_none q)
  have hsep : c.Separated := Components.separated_of_accepted hn hacc (.inl rfl) rfl hquery
  have hfits : Grammar.fits c = true :=
    Components.fits_of_accepted hn hacc (.inl (List.cons_ne_nil (.char ':') d)) rfl hquery
  have hc : Components.ofText c.toText = c := Components.ofText_toText hsep
  have href : Grammar.isReference c.toText = true := by
    unfold Grammar.isReference
    rw [hc, hfits]
  have hunbroken : UrlParts.withoutBreaks (c.authority.getD []) = .char ':' :: d := hacc.unbroken
  have hparts := (UrlParts.ofText_of_isReference hc href).2
    ⟨by rw [hunbroken]; exact hacc.brackets,
      by rw [hunbroken]; exact UrlParts.checkLookalikes_of_ascii hascii, rfl⟩
  have hd : d ∈ (AuthorityParts.ofText (UrlParts.withoutBreaks (c.authority.getD []))).port := by
    rw [hunbroken, hacc.parts]
    rfl
  rw [← htext]
  exact parse_of_long href hparts hd hdigits hlong

namespace Builder
variable {b : Builder} {charset : Text} {cs : Charset} {codec : Codec} {d : CodecError} {e : Error}

theorem encoding_eq_error {α : Type} {charset : Text} {x : Except CodecError α} :
    encoding charset x = .error e ↔
      (∃ run, x = .error (.unencodable run) ∧ e = .build (.unencodable charset run)) ∨
        ∃ d, x = .error d ∧ ¬ d.IsUnencodable ∧ e = .codec d := by
  cases x with
  | ok a => simp [encoding]
  | error d =>
    cases d <;> simp [encoding, CodecError.IsUnencodable, eq_comm]

theorem schemeText_eq_error (h : b.schemeText = .error e) :
    ∃ n, b.scheme = some n ∧ Grammar.isScheme n = false ∧ e = .build (.badScheme n) := by
  unfold schemeText at h
  split at h
  · exact nomatch h
  · next n hn =>
    split at h
    · exact nomatch h
    · next hbad => exact ⟨n, hn, by simpa using hbad, (Except.error.inj h).symm⟩

theorem hostText_eq_error (h : b.hostText = .error e) :
    ∃ x, b.host = some x ∧ ¬ (x ≠ [] ∧ Grammar.isHost x = true) ∧ e = .build (.badHost x) := by
  unfold hostText at h
  split at h
  · exact nomatch h
  · next x hx =>
    split at h
    · exact nomatch h
    · next hbad => exact ⟨x, hx, by simpa using hbad, (Except.error.inj h).symm⟩

theorem encodePath_eq_error [Codecs] (hname : Codec.find charset = .ok codec) {p : Text} :
    encodePath charset p = .error d ↔
      escapeStray p ≠ [] ∧ codec.encode (escapeStray p) = .error d := by
  rw [encodePath, Percent.encode_eq_error, Codec.rejects_of_found hname]

theorem exists_encodePath_iff [Codecs] (hname : Codec.find charset = .ok codec) {p : Text} :
    (∃ path, encodePath charset p = .ok path) ↔ codec.Encodes (escapeStray p) :=
  Percent.exists_encode_iff hname

theorem queryText_eq_error [Codecs] (hname : Codec.find b.charset = .ok codec) :
    b.queryText = .error d ↔
    codec.RefusesFirst ((b.parameters.getD []).flatMap Parameter.texts) d := by
  rw [← Query.format_eq_error_of_found hname]
  unfold queryText
  cases b.parameters with
  | none => exact iff_of_false nofun nofun
  | some params =>
    cases params with
    | nil => exact iff_of_false nofun nofun
    | cons p rest => exact Outcome.map_eq_error

theorem exists_queryText_iff [Codecs] (hname : Codec.find b.charset = .ok codec) :
    (∃ query, b.queryText = .ok query) ↔
      ∀ t ∈ (b.parameters.getD []).flatMap Parameter.texts, codec.Encodes t := by
  rw [← not_iff_not, ← Codec.exists_refusesFirst]
  simp only [← queryText_eq_error hname]
  cases b.queryText with
  | ok query => simp
  | error d => simp

def texts (b : Builder) : List Text :=
  escapeStray b.rootedPath :: (b.parameters.getD []).flatMap Parameter.texts

/-- The charset can write all that it is given. -/
def Encodable (codec : Codec) (b : Builder) : Prop := ∀ t ∈ b.texts, codec.Encodes t

theorem encodable_iff [Codecs] (hname : Codec.find b.charset = .ok codec) : b.Encodable codec ↔
    (∃ path, encodePath b.charset b.rootedPath = .ok path) ∧ ∃ query, b.queryText = .ok query := by
  rw [Encodable, texts, List.forall_mem_cons, exists_encodePath_iff hname,
    exists_queryText_iff hname]

theorem refusesFirst_texts [Codecs] (hname : Codec.find b.charset = .ok codec) :
    codec.RefusesFirst b.texts d ↔ encodePath b.charset b.rootedPath = .error d ∨
      (∃ path, encodePath b.charset b.rootedPath = .ok path) ∧ b.queryText = .error d := by
  rw [texts, Codec.refusesFirst_cons, encodePath_eq_error hname, exists_encodePath_iff hname,
    queryText_eq_error hname]

theorem reading_eq_error {s : Text} (h : reading s (Url.parse s) = .error e) :
    (∃ why, Url.parse s = .error (.url why) ∧ e = .build (.refused s why)) ∨
      ∃ n, Url.parse s = .error (.tooManyDigits n) ∧ e = .tooManyDigits n := by
  cases hparse : Url.parse s with
  | ok u =>
    rw [hparse] at h
    exact nomatch h
  | error d =>
    rw [hparse] at h
    rcases Url.parse_eq_error_cases hparse with ⟨why, rfl⟩ | ⟨n, rfl⟩
    · exact .inl ⟨why, rfl, (Except.error.inj h).symm⟩
    · exact .inr ⟨n, rfl, (Except.error.inj h).symm⟩

structure Checked (b : Builder) : Prop where
  scheme : ∀ n ∈ b.scheme, Grammar.isScheme n = true
  host : ∀ x ∈ b.host, x ≠ [] ∧ Grammar.isHost x = true

/-- The first check that fails, and what comes of it. -/
inductive Failure [Codecs] (codec : Codec) (b : Builder) : Error → Prop
  | scheme {n : Text} (hn : b.scheme = some n) (hbad : Grammar.isScheme n = false) :
    Failure codec b (.build (.badScheme n))
  | host {x : Text} (hscheme : ∀ n ∈ b.scheme, Grammar.isScheme n = true) (hx : b.host = some x)
    (hbad : ¬ (x ≠ [] ∧ Grammar.isHost x = true)) : Failure codec b (.build (.badHost x))
  | character {run : Unencodable} (hchecked : b.Checked)
    (h : codec.RefusesFirst b.texts (.unencodable run)) :
    Failure codec b (.build (.unencodable b.charset run))
  | codec {d : CodecError} (hchecked : b.Checked) (h : codec.RefusesFirst b.texts d)
    (hd : ¬ d.IsUnencodable) : Failure codec b (.codec d)
  | slashes {path : Text} {query : Option Text} (hchecked : b.Checked)
    (hpath : encodePath b.charset b.rootedPath = .ok path) (hquery : b.queryText = .ok query)
    (hhost : b.host = none) (hslashes : [.char '/', .char '/'] <+: path) :
    Failure codec b (.build (.slashedPath path))
  | refused {path : Text} {query : Option Text} {why : UrlError} (hin : Ingredients b path query)
    (h : Url.parse (b.composed path query).toText = .error (.url why)) :
    Failure codec b (.build (.refused (b.composed path query).toText why))
  | digits {path : Text} {query : Option Text} {n : Nat} (hin : Ingredients b path query)
    (h : Url.parse (b.composed path query).toText = .error (.tooManyDigits n)) :
    Failure codec b (.tooManyDigits n)

theorem finish_of_doubleSlash {path : Text} {query : Option Text} (hhost : b.host = none)
    (h : [.char '/', .char '/'] <+: path) :
    b.finish path query = .error (.build (.slashedPath path)) := by
  obtain ⟨t, rfl⟩ := h
  have hslashes : (b.host.isNone &&
      (Text.after? [.char '/', .char '/'] ([.char '/', .char '/'] ++ t)).isSome) = true := by
    rw [hhost, Text.after?_eq_some.2 rfl]
    rfl
  exact if_pos hslashes

theorem Checked.build_eq [Codecs] (h : b.Checked) {path : Text} {query : Option Text}
    (hpath : encodePath b.charset b.rootedPath = .ok path) (hquery : b.queryText = .ok query) :
    b.build = b.finish path query := by
  rw [build_eq_finish, schemeText_eq_ok.2 ⟨rfl, h.scheme⟩, hostText_eq_ok.2 ⟨rfl, h.host⟩,
    encoding_eq_ok.2 hpath, encoding_eq_ok.2 hquery]
  rfl

theorem Checked.build_eq_encoding [Codecs] (h : b.Checked) : b.build = (do
    let path ← encoding b.charset (encodePath b.charset b.rootedPath)
    let query ← encoding b.charset b.queryText
    b.finish path query) := by
  rw [build_eq_finish, schemeText_eq_ok.2 ⟨rfl, h.scheme⟩, hostText_eq_ok.2 ⟨rfl, h.host⟩]
  rfl

theorem Checked.build_eq_error [Codecs] (h : b.Checked) (hname : Codec.find b.charset = .ok codec)
    (hd : codec.RefusesFirst b.texts d) : b.build = encoding b.charset (.error d) := by
  rw [h.build_eq_encoding]
  rcases (refusesFirst_texts hname).1 hd with hpath | ⟨⟨path, hpath⟩, hquery⟩
  · rw [hpath]
    cases d <;> rfl
  · rw [hpath, hquery]
    cases d <;> rfl

theorem Failure.build_eq [Codecs] (hname : Codec.find b.charset = .ok codec)
    (h : Failure codec b e) :
    b.build = .error e := by
  cases h with
  | @scheme n hn hbad =>
    have hscheme : b.schemeText = .error (.build (.badScheme n)) := by
      unfold schemeText
      rw [hn]
      exact if_neg (by simp [hbad])
    rw [build_eq_finish, hscheme]
    rfl
  | @host x hscheme hx hbad =>
    have hhost : b.hostText = .error (.build (.badHost x)) := by
      unfold hostText
      rw [hx]
      exact if_neg (by simpa using hbad)
    rw [build_eq_finish, schemeText_eq_ok.2 ⟨rfl, hscheme⟩, hhost]
    rfl
  | character hchecked hrun => exact hchecked.build_eq_error hname hrun
  | codec hchecked hrefuses hd =>
    rw [hchecked.build_eq_error hname hrefuses]
    exact encoding_eq_error.2 (.inr ⟨_, rfl, hd, rfl⟩)
  | slashes hchecked hpath hquery hhost hslashes =>
    rw [hchecked.build_eq hpath hquery, finish_of_doubleSlash hhost hslashes]
  | refused hin hparse =>
    rw [hin.build_eq, hparse]
    rfl
  | digits hin hparse =>
    rw [hin.build_eq, hparse]
    rfl

theorem Checked.failure [Codecs] (h : b.Checked) (hname : Codec.find b.charset = .ok codec)
    (hd : codec.RefusesFirst b.texts d) (he : b.build = .error e) : Failure codec b e := by
  rw [h.build_eq_error hname hd] at he
  rcases encoding_eq_error.1 he with ⟨run, hrun, rfl⟩ | ⟨c, hc, hno, rfl⟩
  · exact .character h (Except.error.inj hrun ▸ hd)
  · obtain rfl := Except.error.inj hc
    exact .codec h hd hno

/-- With a codec at hand, each way in which composing fails is one of these. -/
theorem build_eq_error_iff [Codecs] (hname : Codec.find b.charset = .ok codec) :
    b.build = .error e ↔ Failure codec b e := by
  refine ⟨fun h => ?_, Failure.build_eq hname⟩
  have hbuild := h
  rw [build_eq_finish] at h
  rcases Outcome.bind_eq_error.1 h with hs | ⟨scheme, hs, h⟩
  · obtain ⟨n, hn, hbad, rfl⟩ := schemeText_eq_error hs
    exact .scheme hn hbad
  have hscheme := (schemeText_eq_ok.1 hs).2
  rcases Outcome.bind_eq_error.1 h with hh | ⟨host, hh, h⟩
  · obtain ⟨x, hx, hbad, rfl⟩ := hostText_eq_error hh
    exact .host hscheme hx hbad
  have hchecked : b.Checked := ⟨hscheme, (hostText_eq_ok.1 hh).2⟩
  by_cases hencodable : b.Encodable codec
  · obtain ⟨⟨path, hpath⟩, query, hquery⟩ := (encodable_iff hname).1 hencodable
    rw [hchecked.build_eq hpath hquery] at hbuild
    by_cases hslashes : b.host = none ∧ [.char '/', .char '/'] <+: path
    · rw [finish_of_doubleSlash hslashes.1 hslashes.2] at hbuild
      exact Except.error.inj hbuild ▸ .slashes hchecked hpath hquery hslashes.1 hslashes.2
    · have hin : Ingredients b path query := by
        refine ⟨hpath, hquery, hscheme, hchecked.host, ?_⟩
        rintro hnone t rfl
        exact hslashes ⟨hnone, t, rfl⟩
      rw [finish_of_slashes hin.slashes] at hbuild
      rcases reading_eq_error hbuild with ⟨why, hparse, rfl⟩ | ⟨n, hparse, rfl⟩
      · exact .refused hin hparse
      · exact .digits hin hparse
  · obtain ⟨d, hd⟩ := Codec.exists_refusesFirst.2 hencodable
    exact hchecked.failure hname hd hbuild

/-- If the path is apart, a port that is not too large is read as it is written. -/
theorem Ingredients.parse_ne_tooManyDigits [Codecs] {path : Text} {query : Option Text}
    (hin : Ingredients b path query) (hapart : b.Apart path)
    (hport : b.port < 10 ^ Numeral.digitLimit) (n : Nat) :
    Url.parse (b.composed path query).toText ≠ .error (.tooManyDigits n) := by
  intro hparse
  rcases Url.parse_eq_error hparse with ⟨why, heq⟩ | ⟨parts, href, hparts, d, hd, hdigits, hlong, -⟩
  · exact nomatch heq
  have hc := hin.ofText_toText hapart href
  have hauth := hin.isAuthority_location hapart href
  obtain ⟨hcheck, -, rfl⟩ := (UrlParts.ofText_of_isReference hc href).1 hparts
  have hau : (b.composed path query).authority = b.location := rfl
  rw [hau] at hcheck hd
  have hall : ∀ t ∈ (AuthorityParts.ofText (UrlParts.withoutBreaks (b.location.getD []))).port,
      Numeral.isDigits t = true := fun t ht => Option.mem_unique ht hd ▸ hdigits
  obtain ⟨hnone, hsome⟩ := hin.ofText_location hauth hcheck hall
  cases hb : b.host with
  | none =>
    rw [hnone hb] at hd
    exact Option.not_mem_none d hd
  | some host =>
    obtain ⟨name, -, -, -, hlocation⟩ := hsome host hb
    rw [hlocation] at hd
    exact absurd (length_of_mem_portDigits hport hd) (Nat.not_le.2 hlong)

/-- With a codec at hand and a port that is not too large, there is a URL, or a failure to build
one; or else the codec refuses a text and blames no character, or a port of too many digits stands
in a path that is not apart. -/
theorem build_cases [Codecs] (hname : Codec.find b.charset = .ok codec)
    (hport : b.port < 10 ^ Numeral.digitLimit) :
    (∃ u, b.build = .ok u) ∨ (∃ why, b.build = .error (.build why)) ∨
      (∃ d, b.build = .error (.codec d) ∧ ¬ d.IsUnencodable ∧ codec.RefusesFirst b.texts d) ∨
      ∃ n path, b.build = .error (.tooManyDigits n) ∧
        encodePath b.charset b.rootedPath = .ok path ∧ ¬ b.Apart path := by
  cases hb : b.build with
  | ok u => exact .inl ⟨u, rfl⟩
  | error e =>
    cases (build_eq_error_iff hname).1 hb with
    | codec _ hrefuses hd => exact .inr (.inr (.inl ⟨_, rfl, hd, hrefuses⟩))
    | digits hin hparse =>
      refine .inr (.inr (.inr ⟨_, _, rfl, hin.encoded, fun hapart => ?_⟩))
      exact hin.parse_ne_tooManyDigits hapart hport _ hparse
    | _ => exact .inr (.inl ⟨_, rfl⟩)

theorem exists_buildError [Codecs] (hname : Codec.find b.charset = .ok codec)
    (hblames : codec.BlamesCharacters) (hpath : b.Detached)
    (hport : b.port < 10 ^ Numeral.digitLimit) (h : b.build = .error e) :
    ∃ why, e = .build why := by
  rcases build_cases hname hport with ⟨u, hu⟩ | ⟨why, hwhy⟩ |
    ⟨d, -, hd, before, t, after, -, -, -, he⟩ |
    ⟨n, path, -, hencoded, hno⟩
  · exact nomatch h.symm.trans hu
  · exact ⟨why, Except.error.inj (h.symm.trans hwhy)⟩
  · exact absurd (hblames t d he) hd
  · exact absurd (hpath path hencoded) hno

theorem Ingredients.checked [Codecs] {path : Text} {query : Option Text}
    (h : Ingredients b path query) :
    b.Checked := ⟨h.scheme, h.host⟩

theorem Ingredients.encodable [Codecs] {path : Text} {query : Option Text}
    (h : Ingredients b path query)
    (hname : Codec.find b.charset = .ok codec) : b.Encodable codec :=
  (encodable_iff hname).2 ⟨⟨path, h.encoded⟩, query, h.formatted⟩

theorem failure_due_to_character [Codecs] :
    (∃ why run, Failure codec b (.build why) ∧ why.cause? = some (.codec (.unencodable run))) ↔
      b.Checked ∧ ∃ run, codec.RefusesFirst b.texts (.unencodable run) := by
  constructor
  · rintro ⟨why, run, hfailure, hcause⟩
    cases hfailure with
    | character hchecked h => exact ⟨hchecked, _, h⟩
    | _ => exact nomatch hcause
  · rintro ⟨hchecked, run, h⟩
    exact ⟨_, run, .character hchecked h, rfl⟩

theorem exists_unencodable_iff (hblames : codec.BlamesCharacters) :
    (∃ run, codec.RefusesFirst b.texts (.unencodable run)) ↔ ¬ b.Encodable codec := by
  rw [Encodable, ← Codec.exists_refusesFirst]
  constructor
  · rintro ⟨run, h⟩
    exact ⟨_, h⟩
  · rintro ⟨d, before, t, after, htexts, hbefore, ht, hd⟩
    obtain ⟨run, rfl⟩ := hblames t d hd
    exact ⟨run, before, t, after, htexts, hbefore, ht, hd⟩

theorem failure_due_to_text [Codecs] (hname : Codec.find b.charset = .ok codec) :
    (∃ why cause, Failure codec b (.build why) ∧ why.cause? = some (.url cause)) ↔
      b.Checked ∧ b.Encodable codec ∧ ∃ path query, Ingredients b path query ∧
        ∃ cause, Url.parse (b.composed path query).toText = .error (.url cause) := by
  constructor
  · rintro ⟨why, cause, hfailure, hcause⟩
    cases hfailure with
    | refused hin hparse => exact ⟨hin.checked, hin.encodable hname, _, _, hin, _, hparse⟩
    | _ => exact nomatch hcause
  · rintro ⟨-, -, path, query, hin, cause, hparse⟩
    exact ⟨_, cause, .refused hin hparse, rfl⟩

theorem failure_due_to_nothing [Codecs] (hname : Codec.find b.charset = .ok codec) :
    (∃ why, Failure codec b (.build why) ∧ why.cause? = none) ↔ ¬ b.Checked ∨
      b.Checked ∧ b.Encodable codec ∧ b.host = none ∧
        ∃ path, encodePath b.charset b.rootedPath = .ok path ∧ [.char '/', .char '/'] <+: path := by
  constructor
  · rintro ⟨why, hfailure, hcause⟩
    cases hfailure with
    | scheme hn hbad => exact .inl fun h => Bool.false_ne_true (hbad.symm.trans (h.scheme _ hn))
    | host _ hx hbad => exact .inl fun h => hbad (h.host _ hx)
    | slashes hchecked hpath hquery hhost hslashes =>
      have hencodable := (encodable_iff hname).2 ⟨⟨_, hpath⟩, _, hquery⟩
      exact .inr ⟨hchecked, hencodable, hhost, _, hpath, hslashes⟩
    | _ => exact nomatch hcause
  · rintro (hno | ⟨hchecked, hencodable, hhost, path, hpath, hslashes⟩)
    · by_cases hscheme : ∀ n ∈ b.scheme, Grammar.isScheme n = true
      · have hhost : ∃ x ∈ b.host, ¬ (x ≠ [] ∧ Grammar.isHost x = true) := by
          by_contra hall
          push Not at hall
          exact hno ⟨hscheme, hall⟩
        obtain ⟨x, hx, hbad⟩ := hhost
        exact ⟨_, .host hscheme hx hbad, rfl⟩
      · push Not at hscheme
        obtain ⟨n, hn, hbad⟩ := hscheme
        exact ⟨_, .scheme hn (Bool.eq_false_iff.2 hbad), rfl⟩
    · obtain ⟨query, hquery⟩ := ((encodable_iff hname).1 hencodable).2
      exact ⟨_, .slashes hchecked hpath hquery hhost hslashes, rfl⟩

/-- With neither scheme nor host, the path does not begin with a slash. -/
def Rootless (b : Builder) : Prop :=
  b.scheme = none ∧ b.host = none ∧ ∃ path ∈ b.path, path ≠ [] ∧ path.head? ≠ some (.char '/')

/-- Where slashes stay what they are, only a rootless path is not apart. -/
theorem detached_of_not_rootless [Codecs] (hname : Codec.find b.charset = .ok codec)
    (hkeeps : codec.KeepsSlash) (h : ¬ b.Rootless) : b.Detached := by
  by_cases hslash : ∃ t, b.rootedPath = .char '/' :: t
  · exact detached_of_slash hname hkeeps hslash
  intro path hpath
  by_cases hnil : b.rootedPath = []
  · rw [hnil, encodePath_nil] at hpath
    obtain rfl : [] = path := Except.ok.inj hpath
    exact ⟨fun _ _ x y heq => by simp at heq, fun _ => .inl rfl⟩
  · have hhost : b.host.isSome ≠ true := fun hhost =>
      (rootedPath_of_host hhost).elim hnil hslash
    have hnone : b.host = none := by simpa using hhost
    refine ⟨fun hscheme _ => absurd ⟨hscheme, hnone, ?_⟩ h, fun hsome => absurd hsome hhost⟩
    have hrooted := rootedPath_of_no_host hnone
    cases hp : b.path with
    | none =>
      rw [hp] at hrooted
      exact absurd hrooted hnil
    | some p =>
      obtain rfl : b.rootedPath = p := by rw [hrooted, hp, Option.getD_some]
      exact ⟨_, rfl, hnil, fun hhead => hslash (List.head?_eq_some_iff.1 hhead)⟩

end Builder
end HttpUri
