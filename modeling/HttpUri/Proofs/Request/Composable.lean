import HttpUri.Proofs.Authority.Accepted
import HttpUri.Proofs.Request.Target
import HttpUri.Proofs.Url.Path
import HttpUri.Request.Operation

/-! Which targets a URL can be composed of, in the charsets that extend ASCII. -/
namespace HttpUri

namespace Builder
variable {b : Builder} {cs : Charset}

/-- Ingredients whose authority is accepted make up a URL: no surprise is left for the parser. -/
theorem Ingredients.exists_build [Codecs] {path : Text} {query : Option Text}
    (h : Ingredients b path query) (hcs : Charset.ofName? b.charset = some cs)
    (ha : cs.extendsAscii = true) (hslash : ∃ t, b.rootedPath = .char '/' :: t)
    (hport : b.port < 10 ^ Numeral.digitLimit)
    (haccepted : ∀ a ∈ b.location, (∃ host, AuthorityParts.Accepted a host b.portDigits) ∧
      UrlParts.checkLookalikes a = .ok ()) : ∃ u, b.build = .ok u := by
  have hdetached := detached_of_slash (Codec.find_of_ofName? hcs) cs.keepsSlash hslash
  have hencoded := h.encoded
  rw [hslash.choose_spec] at hencoded
  obtain ⟨t, ht⟩ := encodePath_slash (Codec.find_of_ofName? hcs) cs.keepsSlash hencoded
  have hne : path ≠ [] := ht ▸ List.cons_ne_nil (.char '/') t
  have hpath : Grammar.isEncoded Grammar.isPathChar path = true :=
    isEncoded_encodePath hcs ha h.encoded
  have hsep : (b.composed path query).Separated :=
    h.separated (hdetached path h.encoded) fun a hl =>
      (haccepted a hl).1.elim fun _ hacc => hacc.free
  have hfits : Grammar.fits (b.composed path query) = true := by
    refine Grammar.fits_eq_true.2 ⟨?_, ?_, hpath, isEncoded_queryText h.formatted, nofun⟩
    · exact fun n hn => ⟨h.scheme n hn, .inr hne⟩
    · exact fun a hl => ⟨.inr hne, (haccepted a hl).1.elim fun _ hacc => hacc.fits⟩
  have hlocation : ∃ host p, AuthorityParts.Accepted (b.location.getD []) host p ∧
      (∀ d ∈ p, Numeral.isDigits d = true ∧ d.length ≤ Numeral.digitLimit) ∧
        UrlParts.checkLookalikes (b.location.getD []) = .ok () := by
    cases hl : b.location with
    | none =>
      have hempty := AuthorityParts.accepted_name (t := []) (p := none) rfl rfl
      exact ⟨[], none, hempty, nofun, rfl⟩
    | some a =>
      obtain ⟨⟨host, hacc⟩, hlook⟩ := haccepted a hl
      refine ⟨host, b.portDigits, hacc, fun d hd => ⟨?_, length_of_mem_portDigits hport hd⟩, hlook⟩
      exact (Option.all_eq_true _ _).1 b.all_portDigits d hd
  obtain ⟨host, p, hacc, hdigits, hlook⟩ := hlocation
  have hparts : (AuthorityParts.ofText (b.location.getD [])).port = p := by rw [hacc.parts]
  obtain ⟨u, hu⟩ := Url.exists_parse hsep hfits hacc.unbroken hacc.brackets hlook
    (hparts ▸ hdigits)
  exact ⟨u, build_eq_ok.2 ⟨path, query, h, hu⟩⟩

theorem exists_queryText_iff_encodable [Codecs] (hcs : Charset.ofName? b.charset = some cs) :
    (∃ q, b.queryText = .ok q) ↔
      ∀ params ∈ b.parameters, ∀ p ∈ params, Query.Encodable cs p := by
  rw [exists_queryText_iff (Codec.find_of_ofName? hcs)]
  simp only [List.forall_mem_flatMap, Query.encodable_iff_texts, Charset.encodes_iff]
  cases b.parameters <;> simp

end Builder

namespace Message
variable {m : Message} {cs : Charset}

/-- What a target has to be for a URL of it: the charset has its characters, a path that two slashes
begin stands behind an authority, and scheme and host name fit the grammar. -/
structure Composable (cs : Charset) (m : Message) : Prop where
  path : ∀ p ∈ m.path, p.all cs.has = true
  parameters : ∀ params ∈ m.parameters, ∀ p ∈ params, Query.Encodable cs p
  slashes : m.authority = none → ∀ t, targetPath m.path ≠ .char '/' :: .char '/' :: t
  scheme : ∀ a ∈ m.authority, ∀ n ∈ m.scheme, n ∈ Abnf.scheme
  hostname : ∀ a ∈ m.authority, a.hostname ∈ Abnf.hostname

theorem all_has_targetPath (path : Option Text) :
    (targetPath path).all cs.has = true ↔ ∀ p ∈ path, p.all cs.has = true := by
  have hslash : cs.has '/' = true := Charset.has_of_isAscii rfl
  cases path with
  | none => simp [targetPath, hslash]
  | some p =>
    rw [targetPath]
    split
    · simp
    · simp [hslash]

theorem slashes_rootedPath (ha : cs.extendsAscii = true)
    (hpath : m.builder.rootedPath.all cs.has = true) :
    (∀ t, Builder.pathText cs m.builder.rootedPath ≠ .char '/' :: .char '/' :: t) ↔
      ∀ t, m.builder.rootedPath ≠ .char '/' :: .char '/' :: t := by
  obtain ⟨p, hp⟩ := m.exists_rootedPath
  rw [hp, List.all_cons, Bool.and_eq_true] at hpath
  rw [hp, ← not_exists, ← not_exists, Builder.slashes_pathText ha hpath.2]
  simp only [List.cons.injEq, true_and]

theorem scheme_builder : (∀ n ∈ m.builder.scheme, Grammar.isScheme n = true) ↔
    ∀ a ∈ m.authority, ∀ n ∈ m.scheme, n ∈ Abnf.scheme := by
  cases hm : m.authority with
  | none =>
    rw [(builder_of_no_authority hm).1]
    exact iff_of_true nofun nofun
  | some a =>
    rw [(builder_of_authority hm).1]
    simp only [Option.mem_def, Option.some.injEq, forall_eq']
    cases m.scheme with
    | none => exact iff_of_true rfl nofun
    | some n =>
      simp only [Option.getD_some, Option.some.injEq, forall_eq']
      exact Abnf.mem_scheme.symm

theorem host_builder : (∀ x ∈ m.builder.host, x ≠ [] ∧ Grammar.isHost x = true) ↔
    ∀ a ∈ m.authority, Grammar.isHost a.hostname = true := by
  cases hm : m.authority with
  | none =>
    rw [(builder_of_no_authority hm).2]
    exact iff_of_true nofun nofun
  | some a =>
    rw [(builder_of_authority hm).2.1]
    simp only [Option.mem_def, Option.some.injEq, forall_eq']
    exact and_iff_right a.named

theorem host_builder_eq_none : m.builder.host = none ↔ m.authority = none :=
  Option.map_eq_none_iff

/-- The parts of a URL can be had just when each is in order by itself. -/
theorem exists_ingredients_iff [Codecs] (hcs : Charset.ofName? m.charset = some cs)
    (ha : cs.extendsAscii = true) : (∃ path query, m.builder.Ingredients path query) ↔
      (∀ p ∈ m.path, p.all cs.has = true) ∧
      (∀ params ∈ m.parameters, ∀ p ∈ params, Query.Encodable cs p) ∧
      (m.authority = none → ∀ t, targetPath m.path ≠ .char '/' :: .char '/' :: t) ∧
      (∀ a ∈ m.authority, ∀ n ∈ m.scheme, n ∈ Abnf.scheme) ∧
      ∀ a ∈ m.authority, Grammar.isHost a.hostname = true := by
  have hquery : (∃ q, m.builder.queryText = .ok q) ↔
      ∀ params ∈ m.parameters, ∀ p ∈ params, Query.Encodable cs p :=
    Builder.exists_queryText_iff_encodable hcs
  rw [← all_has_targetPath, ← hquery, ← scheme_builder, ← host_builder,
    ← host_builder_eq_none, ← m.rootedPath_builder.1]
  constructor
  · intro h
    obtain ⟨path, query, hin⟩ := h
    obtain ⟨hpath, rfl⟩ := (Builder.encodePath_eq_ok hcs).1 hin.encoded
    refine ⟨hpath, ⟨query, hin.formatted⟩, fun hnone => ?_, hin.scheme, hin.host⟩
    exact (slashes_rootedPath ha hpath).1 (hin.slashes hnone)
  · intro h
    obtain ⟨hpath, ⟨query, hquery⟩, hslashes, hscheme, hhost⟩ := h
    refine ⟨_, query, (Builder.encodePath_eq_ok hcs).2 ⟨hpath, rfl⟩, hquery, hscheme, hhost, ?_⟩
    exact fun hnone => (slashes_rootedPath ha hpath).2 (hslashes hnone)

/-- A URL of a target is composed just when the target is fit for it. -/
theorem exists_compose_iff [Codecs] (hcs : Charset.ofName? m.charset = some cs)
    (ha : cs.extendsAscii = true) (hm : ∀ a ∈ m.authority,
      (∀ c ∈ a.hostname, Percent.isAscii c = true) ∧
        ¬ (.char ':' ∈ a.hostname ∧ .char '%' ∈ a.hostname) ∧
        a.port < 10 ^ Numeral.digitLimit) :
    (∃ u, m.compose = .ok u) ↔ Composable cs m := by
  have hslash := m.exists_rootedPath
  constructor
  · intro h
    obtain ⟨u, hu⟩ := h
    obtain ⟨path, query, hin, -, -, hauth⟩ := 
      Builder.divided_of_build hu (detached_builder hcs)
    obtain ⟨hpath, hparams, hslashes, hscheme, hhost⟩ :=
      (exists_ingredients_iff hcs ha).1 ⟨path, query, hin⟩
    refine ⟨hpath, hparams, hslashes, hscheme, fun a hau => ?_⟩
    have hlocation : bracketed a.hostname ++ AuthorityParts.portText m.builder.portDigits ∈
        m.builder.location := Option.map_eq_some_iff.2 ⟨_, (builder_of_authority hau).2.1, rfl⟩
    exact Abnf.mem_hostname_of_isAuthority (hhost a hau) (hauth _ hlocation)
  · intro h
    have hhost : ∀ a ∈ m.authority, Grammar.isHost a.hostname = true := fun a hau =>
      Abnf.isHost_of_mem_hostname (h.hostname a hau) (hm a hau).2.1
    obtain ⟨path, query, hin⟩ := (exists_ingredients_iff hcs ha).2
      ⟨h.path, h.parameters, h.slashes, h.scheme, hhost⟩
    have hport := port_builder_lt fun a hau => (hm a hau).2.2
    refine hin.exists_build hcs ha hslash hport fun x hx => ?_
    obtain ⟨host, hb, rfl⟩ := Option.map_eq_some_iff.1 hx
    obtain ⟨a, hau, rfl⟩ := Option.map_eq_some_iff.1 hb
    obtain ⟨hascii, hzone, -⟩ := hm a hau
    have hdigits := m.builder.all_portDigits
    exact ⟨Abnf.accepted_of_mem_hostname (h.hostname a hau) hzone hdigits,
      UrlParts.checkLookalikes_of_ascii fun c hc =>
        (AuthorityParts.mem_bracketed_portText hdigits hc).elim (hascii c) id⟩

end Message

namespace Request
open Message
variable {r : Request} {cs : Charset}

/-- With no URL in store, one is had just of a target that is fit for it, and of any other the
failure is one to build it. -/
theorem getUri_succeeds_iff [Codecs] (hfresh : r.cache.current = none)
    (hcs : Charset.ofName? r.charset = some cs) (ha : cs.extendsAscii = true)
    (hr : ∀ a ∈ r.authority,
      (∀ c ∈ a.hostname, Percent.isAscii c = true) ∧
        ¬ (.char ':' ∈ a.hostname ∧ .char '%' ∈ a.hostname) ∧
        a.port < 10 ^ Numeral.digitLimit) :
    ((∃ c, (r.perform .getUri).1 = .ok (.url c)) ↔ Composable cs r.toMessage) ∧
      (¬ Composable cs r.toMessage →
        ∃ why, r.perform .getUri = (.error (.build why), r)) := by
  rw [perform_getUri, hfresh, ← exists_compose_iff hcs ha hr]
  cases hu : r.compose with
  | ok u => exact ⟨iff_of_true ⟨_, rfl⟩ ⟨u, rfl⟩, fun hno => absurd ⟨u, rfl⟩ hno⟩
  | error e =>
    obtain ⟨why, rfl⟩ := compose_eq_error hcs (fun a hau => (hr a hau).2.2) hu
    exact ⟨iff_of_false nofun nofun, fun _ => ⟨why, rfl⟩⟩

/-- An address that is given in brackets, a path of two slashes behind it, and letters that only
some charsets have. -/
theorem getUri_succeeds_of_literal :
    let a : Authority := ⟨"[::1]".points, 8080, none, by decide⟩
    let r : Request := {
      method := "GET".points, version := none, scheme := none, authority := some a
      path := some "//ü%".points, parameters := some [⟨[.char '?'], none⟩], headers := .empty
      charset := "latin-1".points, cache := .empty, compositions := 0 }
    r.cache.current = none ∧ ∃ c, (r.perform .getUri).1 = .ok (.url c) := by
  intro a r
  have hcs : Charset.ofName? r.charset = some .latin1 := by decide
  have hport : (8080 : Int) < 10 ^ Numeral.digitLimit := by
    calc (8080 : Int)
        < 10 ^ 4 := by decide
      _ ≤ 10 ^ Numeral.digitLimit := pow_le_pow_right₀ (by decide) (by decide)
  have hr : ∀ b ∈ r.authority,
      (∀ c ∈ b.hostname, Percent.isAscii c = true) ∧
        ¬ (.char ':' ∈ b.hostname ∧ .char '%' ∈ b.hostname) ∧
        b.port < 10 ^ Numeral.digitLimit := by
    intro b hb
    obtain rfl : a = b := Option.some.inj hb
    exact ⟨List.all_eq_true.1 rfl, by decide, hport⟩
  have hhost : a.hostname ∈ Abnf.hostname :=
    .inr (.inr (Abnf.mem_ipLiteral.2 ⟨"::1".points, by decide, rfl⟩))
  have hfit : Composable .latin1 r.toMessage := by
    refine ⟨?_, ?_, nofun, fun _ _ => nofun, ?_⟩
    · intro p hp
      obtain rfl : "//ü%".points = p := Option.some.inj hp
      decide
    · intro params hp
      obtain rfl : [⟨[.char '?'], none⟩] = params := Option.some.inj hp
      exact List.forall_mem_singleton.2 ⟨by decide, nofun⟩
    · intro b hb
      obtain rfl : a = b := Option.some.inj hb
      exact hhost
  exact ⟨rfl, (getUri_succeeds_iff rfl hcs rfl hr).1.2 hfit⟩

end Request
end HttpUri
