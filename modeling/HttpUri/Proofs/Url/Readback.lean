import HttpUri.Charset.Registry
import HttpUri.Proofs.Reference.Segments
import HttpUri.Proofs.Url.Composition
import HttpUri.Proofs.Url.Path

/-! Which composed URLs read back as what was set: all but those whose path is taken for a scheme
and more. -/
namespace HttpUri.Builder
variable {b : Builder} {u : Url} {cs : Charset} {path : Text} {query : Option Text}

/-- With neither scheme nor host, the path begins as if it had a scheme. -/
def LooksAbsolute (b : Builder) : Prop :=
  b.scheme = none ∧ b.host = none ∧ ∃ n ∈ Abnf.scheme, ∃ rest : Text,
    b.path = some (n ++ .char ':' :: rest)

structure Restored [Codecs] (b : Builder) (u : Url) : Prop where
  scheme : u.scheme = b.scheme
  userInfo : u.userInfo = none
  noHost : b.host = none → u.host = none
  host : ∀ host ∈ b.host, ∃ name, Grammar.unbracket? host = some name ∧ u.host = some name
  port : u.port = if b.host.isSome = true ∧ 0 ≤ b.port then some b.port.toNat else none
  path : encodePath b.charset b.rootedPath = .ok u.path
  noQuery : b.parameters = none ∨ b.parameters = some [] → u.query = none
  query : ∀ params ∈ b.parameters, params ≠ [] →
    ∃ q, Query.format params b.charset = .ok q ∧ u.query = some q
  fragment : u.fragment = none

theorem ComposedOf.restored [Codecs] (h : b.ComposedOf u)
    (hzone : ∀ host ∈ b.host, ¬ (.char ':' ∈ host ∧ .char '%' ∈ host)) : b.Restored u := by
  refine ⟨h.scheme, h.userInfo, fun hb => (h.noHost hb).1, ?_, ?_, h.path,
    noQuery_of_queryText h.query, fun _ => format_of_queryText h.query, h.fragment⟩
  · intro host hb
    obtain ⟨-, name, hname, hu, hbreaks⟩ := h.host host hb
    have hsub : ∀ c ∈ name, c ∈ host := by
      rcases Grammar.unbracket?_eq_some.1 hname with rfl | ⟨rfl, -⟩
      · exact fun c hc => by simp [hc]
      · exact fun c hc => hc
    have hno : ¬ (Ip.isIpv6 name = true ∧ .char '%' ∈ name) := fun hip =>
      hzone host hb ⟨hsub ':' (Ip.colon_mem_of_isIpv6 hip.1), hsub '%' hip.2⟩
    exact ⟨name, hname, by rw [hu, hbreaks.resolve_left hno]⟩
  · cases hb : b.host with
    | none => exact (h.noHost hb).2
    | some host =>
      rw [(h.host host hb).1]
      simp

/-- Encoding neither makes nor unmakes what looks like a scheme. -/
theorem pathText_scheme (ha : cs.extendsAscii = true) {p n : Text} (hp : p.all cs.has = true)
    (hn : n ∈ Abnf.scheme) :
    (∃ rest : Text, pathText cs p = n ++ .char ':' :: rest) ↔
      ∃ rest : Text, p = n ++ .char ':' :: rest := by
  have hscheme := Abnf.mem_scheme.1 hn
  have hname : ∀ c ∈ n, Percent.isAscii c = true ∧ Grammar.isPathChar c = true := fun c hc =>
    ⟨Grammar.isAscii_of_isScheme hscheme c hc, Grammar.isPathChar_of_isScheme hscheme hc⟩
  have hcolon : ∀ c ∈ [.char ':'], Percent.isAscii c = true ∧ Grammar.isPathChar c = true :=
    List.forall_mem_singleton.2 ⟨rfl, rfl⟩
  have hchars := List.forall_mem_append.2 ⟨hname, hcolon⟩
  have hstarts : ∀ s : Text, (∃ rest : Text, s = n ++ .char ':' :: rest) ↔
      n ++ [.char ':'] <+: s := by
    intro s
    simp only [List.IsPrefix, List.append_assoc, List.singleton_append, eq_comm]
  rw [hstarts, hstarts, prefix_pathText ha hchars hp]

theorem looksAbsolute_iff [Codecs] (hcs : Charset.ofName? b.charset = some cs)
    (ha : cs.extendsAscii = true) (hscheme : b.scheme = none) (hhost : b.host = none)
    (hpath : encodePath b.charset b.rootedPath = .ok path) :
    b.LooksAbsolute ↔ ∃ n ∈ Abnf.scheme, ∃ rest : Text, path = n ++ .char ':' :: rest := by
  obtain ⟨hhas, rfl⟩ := (encodePath_eq_ok hcs).1 hpath
  have hgiven : ∀ n, (∃ rest : Text, b.path = some (n ++ .char ':' :: rest)) ↔
      ∃ rest : Text, b.rootedPath = n ++ .char ':' :: rest := by
    intro n
    rw [rootedPath_of_no_host hhost]
    cases b.path <;> simp
  unfold LooksAbsolute
  rw [and_iff_right hscheme, and_iff_right hhost]
  refine exists_congr fun n => and_congr_right fun hn => ?_
  rw [hgiven, pathText_scheme ha hhas hn]

theorem scheme_of_bare (hscheme : b.scheme = none) (hhost : b.host = none) {n rest : Text}
    (hn : n ≠ [] ∧ ∀ d ∈ n, Components.endsScheme d = false) :
    (Components.ofText (b.composed (n ++ .char ':' :: rest) query).toText).scheme = some n := by
  have htext : (b.composed (n ++ .char ':' :: rest) query).toText =
      n ++ .char ':' :: (rest ++ Components.queryText query) := by
    simp [composed, Components.toText, location, hscheme, hhost, Components.schemeText,
      Components.authorityText, Components.fragmentText]
  rw [htext]
  exact congrArg Prod.fst (Components.takeScheme_append hn.1 hn.2)

/-- Of a path that does not look absolute, nothing is read as a scheme. -/
theorem detached_of_build [Codecs] (h : b.build = .ok u) (hcs : Charset.ofName? b.charset = some cs)
    (ha : cs.extendsAscii = true) (hno : ¬ b.LooksAbsolute) : b.Detached := by
  intro path hpath
  by_cases hhost : b.host.isSome = true
  · exact detached_of_charset hcs hhost path hpath
  refine ⟨fun hscheme hhost n rest heq hne => ?_, fun hsome => absurd hsome hhost⟩
  by_contra hfree
  push Not at hfree
  have hends : ∀ d ∈ n, Components.endsScheme d = false := fun d hd =>
    Bool.eq_false_iff.2 (hfree d hd)
  obtain ⟨other, query, hin, hparse⟩ := build_eq_ok.1 h
  obtain rfl : path = other := Except.ok.inj (hpath.symm.trans hin.encoded)
  obtain ⟨hfits, -⟩ := Url.parse_eq_ok rfl hparse
  have hread : n ∈ (Components.ofText (b.composed path query).toText).scheme := by
    rw [heq]
    exact scheme_of_bare hscheme hhost ⟨hne, hends⟩
  have hn : n ∈ Abnf.scheme := Abnf.mem_scheme.2 ((Grammar.fits_eq_true.1 hfits).1 n hread).1
  exact hno ((looksAbsolute_iff hcs ha hscheme hhost hpath).2 ⟨n, hn, rest, heq⟩)

theorem scheme_of_looksAbsolute [Codecs] (h : b.build = .ok u)
    (hcs : Charset.ofName? b.charset = some cs)
    (ha : cs.extendsAscii = true) (hlooks : b.LooksAbsolute) : u.scheme ≠ none := by
  obtain ⟨path, query, hin, hparse⟩ := build_eq_ok.1 h
  have hscheme := hlooks.1
  have hhost := hlooks.2.1
  obtain ⟨n, hn, rest, rfl⟩ := (looksAbsolute_iff hcs ha hscheme hhost hin.encoded).1 hlooks
  obtain ⟨-, -, -, hu, -⟩ := Url.parse_eq_ok rfl hparse
  have hends := Grammar.separated_of_isScheme (Abnf.mem_scheme.1 hn)
  rw [hu, scheme_of_bare hscheme hhost hends]
  exact Option.some_ne_none n

/-- In the charsets that extend ASCII, and with no zone in the host, a composed URL reads back as
what was set just when its path does not look absolute. -/
theorem restored_iff [Codecs] (h : b.build = .ok u) (hcs : Charset.ofName? b.charset = some cs)
    (ha : cs.extendsAscii = true)
    (hzone : ∀ host ∈ b.host, ¬ (.char ':' ∈ host ∧ .char '%' ∈ host)) :
    b.Restored u ↔ ¬ b.LooksAbsolute := by
  constructor
  · intro hr hlooks
    exact scheme_of_looksAbsolute h hcs ha hlooks (hr.scheme.trans hlooks.1)
  · intro hno
    exact (composedOf_of_build h (detached_of_build h hcs ha hno)).restored hzone

/-- An address in brackets and its port, a rootless path that a colon is in, and parameters. -/
theorem restored_of_address :
    let b : Builder := ⟨none, some "[::1]".points, 8080, some "a:b c".points,
      some [⟨[.char 'q'], some [.char 'é']⟩], "latin-1".points⟩
    ∃ u, b.build = .ok u ∧ b.Restored u := by
  intro b
  have hok : b.build.isOk = true := by decide +kernel
  obtain ⟨u, hu⟩ := Outcome.exists_of_isOk hok
  have hcs : Charset.ofName? b.charset = some .latin1 := by decide
  have hzone : ∀ host ∈ b.host, ¬ (.char ':' ∈ host ∧ .char '%' ∈ host) := by
    intro host hhost
    obtain rfl : "[::1]".points = host := Option.some.inj hhost
    decide
  have hno : ¬ b.LooksAbsolute := fun hlooks => nomatch hlooks.2.1
  exact ⟨u, hu, (restored_iff hu hcs rfl hzone).2 hno⟩

/-- A path becomes a scheme, a host and another path. -/
theorem not_restored_of_absolute :
    let b : Builder := { empty "utf-8".points with path := some "x://evil.example/p".points }
    ∃ u, b.build = .ok u ∧ u.scheme = some [.char 'x'] ∧ u.host = some "evil.example".points ∧
      u.path = "/p".points ∧ ¬ b.Restored u := by
  intro b
  have hread : b.build.toOption.map (fun u => (u.scheme, u.host, u.path)) =
      some (some [.char 'x'], some "evil.example".points, "/p".points) := by decide +kernel
  obtain ⟨u, hu, hparts⟩ := Outcome.toOption_map_eq_some.1 hread
  obtain ⟨hscheme, hhost, hpath⟩ := by simpa only [Prod.mk.injEq] using hparts
  exact ⟨u, hu, hscheme, hhost, hpath, fun hr => nomatch hscheme.symm.trans hr.scheme⟩

end HttpUri.Builder
