import HttpUri.Proofs.Request.Coherence
import HttpUri.Proofs.Request.Target
import HttpUri.Proofs.Url.Path

/-! The text of the URL that a request composes, and the texts that it writes of its target without
one. -/
namespace HttpUri
open Components (authorityText)

theorem Builder.text_of_build [Codecs] {b : Builder} {u : Url} (h : b.build = .ok u) :
    ∃ path query, Ingredients b path query ∧ u.text = (b.composed path query).toText := by
  obtain ⟨path, query, hin, hparse⟩ := build_eq_ok.1 h
  exact ⟨path, query, hin, Url.text_of_parse hparse⟩

namespace Message
variable {m : Message} {u : Url} {cs : Charset} {a : Authority} {p suffix : Text}

theorem querySuffix_of_queryText [Codecs] {query : Option Text}
    (h : m.builder.queryText = .ok query) :
    m.querySuffix = .ok (Components.queryText query) := by
  have hbuilder : m.builder.parameters = m.parameters := rfl
  unfold querySuffix
  cases hp : m.parameters with
  | none =>
    rw [Builder.noQuery_of_queryText h (.inl (hbuilder.trans hp))]
    rfl
  | some params =>
    cases params with
    | nil =>
      rw [Builder.noQuery_of_queryText h (.inr (hbuilder.trans hp))]
      rfl
    | cons first rest =>
      obtain ⟨q, hformat, rfl⟩ :=
        Builder.format_of_queryText h (hbuilder.trans hp) (List.cons_ne_nil first rest)
      exact Outcome.map_eq_ok.2 ⟨q, hformat, rfl⟩

theorem authorityText_builder (ha : m.authority = some a) :
    authorityText m.builder.location =
      "//".points ++ Authority.toText { a with userInfo := none } := by
  obtain ⟨-, hhost, hport⟩ := builder_of_authority ha
  have hdigits : AuthorityParts.portText m.builder.portDigits =
      if 0 ≤ a.port then .char ':' :: Numeral.ofInt a.port else [] := by
    rw [Builder.portDigits, hport]
    by_cases hp : 0 ≤ a.port
    · simp [hp, AuthorityParts.portText]
    · simp [hp, AuthorityParts.portText]
  rw [Builder.location, hhost, Option.map_some, hdigits]
  rfl

/-- The path of a URL is the one of its target if that is already encoded. -/
theorem text_of_compose [Codecs] (h : m.compose = .ok u) (hcs : Charset.ofName? m.charset = some cs)
    (ha : cs.extendsAscii = true) (hp : m.path = some p) (hslash : p.head? = some (.char '/'))
    (hascii : ∀ c ∈ p, Percent.isAscii c = true)
    (hfit : Grammar.isEncoded Grammar.isPathChar p = true) :
    ∃ suffix, m.querySuffix = .ok suffix ∧ u.text =
      Components.schemeText m.builder.scheme ++ authorityText m.builder.location ++
        (p ++ suffix) := by
  obtain ⟨path, query, hin, htext⟩ := Builder.text_of_build h
  have htarget : targetPath m.path = p := by
    rw [hp]
    exact if_pos hslash
  have hencoded := hin.encoded
  rw [m.rootedPath_builder.1, htarget] at hencoded
  obtain ⟨-, hpath⟩ := (Builder.encodePath_eq_ok hcs).1 hencoded
  rw [Builder.pathText_eq_self ha hascii hfit] at hpath
  refine ⟨_, querySuffix_of_queryText hin.formatted, ?_⟩
  rw [htext, ← hpath]
  simp only [Builder.composed, Components.toText, Components.fragmentText, List.append_assoc,
    List.append_nil]

theorem requestUri_of_path [Codecs] (hp : m.path = some p) (hs : m.querySuffix = .ok suffix) :
    m.requestUri = .ok (some (p ++ suffix)) := by
  have huri : m.requestUri = .ok (if suffix = [] then m.path else
      some (Text.orNone m.path ++ suffix)) := by
    rw [requestUri, hs]
    rfl
  rw [huri, hp]
  split
  · next hnil => rw [hnil, List.append_nil]
  · rfl

theorem toText_of_path [Codecs] {n : Text} (hp : m.path = some p) (hs : m.querySuffix = .ok suffix)
    (hn : m.scheme = some n) (ha : m.authority = some a) :
    m.toText = .ok (m.method ++ .char ' ' :: (n ++ "://".points ++ a.toText ++ (p ++ suffix))) := by
  have htext : m.toText = .ok (m.method ++ .char ' ' :: Text.orNone m.scheme ++ "://".points ++
      Text.orNone (m.authority.map (·.toText)) ++ Text.orNone m.path ++ suffix) := by
    rw [toText, hs]
    rfl
  rw [htext, hp, hn, ha]
  simp only [Text.orNone, Option.map_some, List.append_assoc, List.cons_append]

end Message

namespace Request
open Message
variable {r : Request} {cs : Charset} {p : Text} {c : Composed}

/-- With a path that is already encoded, the URL that a request gives is written as scheme,
authority and the target that the request writes, and the request itself as its method and that URL.
-/
theorem getUri_renderings [Codecs] (h : Reached r) (hcs : Charset.ofName? r.charset = some cs)
    (ha : cs.extendsAscii = true) (hp : r.path = some p) (hslash : p.head? = some (.char '/'))
    (hascii : ∀ c ∈ p, Percent.isAscii c = true)
    (hfit : Grammar.isEncoded Grammar.isPathChar p = true)
    (hc : (r.perform .getUri).1 = .ok (.url c)) :
    ∃ target, (r.perform (.read .requestUri)).1 = .ok (.text (some target)) ∧
      (r.authority = none → c.url.text = target) ∧
      (∀ a ∈ r.authority, c.url.text = r.scheme.getD Host.defaultScheme ++ "://".points ++
        Authority.toText { a with userInfo := none } ++ target) ∧
      ∀ a ∈ r.authority, ∀ n ∈ r.scheme, a.userInfo = none →
        (r.perform (.read .text)).1 = .ok (.text (some (r.method ++ .char ' ' :: c.url.text))) := by
  have hu : r.compose = .ok c.url := h.coherent.compose_of_getUri hc
  obtain ⟨suffix, hsuffix, htext⟩ := text_of_compose hu hcs ha hp hslash hascii hfit
  have hwith : ∀ a ∈ r.authority, c.url.text = r.scheme.getD Host.defaultScheme ++
      "://".points ++ Authority.toText { a with userInfo := none } ++ (p ++ suffix) := by
    intro a hau
    rw [htext, authorityText_builder hau, (builder_of_authority hau).1, Components.schemeText]
    simp [String.points, List.append_assoc]
  refine ⟨p ++ suffix, ?_, fun hnone => ?_, hwith, fun a hau n hn huser => ?_⟩
  · rw [perform_read, Request.read, requestUri_of_path hp hsuffix]
    rfl
  · obtain ⟨hscheme, hhost⟩ := builder_of_no_authority hnone
    rw [htext, hscheme, Builder.location, hhost]
    rfl
  · have hplain : { a with userInfo := none } = a := by
      rw [← huser]
    have hscheme : r.scheme = some n := hn
    rw [perform_read, Request.read, toText_of_path hp hsuffix hn hau, hwith a hau, hscheme, hplain]
    rfl

/-- An address and a port, a triplet in the path, and a parameter without a value. -/
theorem getUri_renderings_of_address :
    let ops : List Operation := [.setScheme (some "https".points),
      .setAuthority (some ⟨"::1".points, 8080, none, by decide⟩),
      .setPath (some "/a%2Fb;c".points),
      .setParameters (some [⟨[.char 'q'], some [.char 'é']⟩, ⟨[.char 'x'], none⟩])]
    let r := (bare "G".points "latin-1".points).run ops
    Reached r ∧ ∃ c target, (r.perform .getUri).1 = .ok (.url c) ∧
      (r.perform (.read .requestUri)).1 = .ok (.text (some target)) ∧
      c.url.text = "https://[::1]:8080".points ++ target ∧
      (r.perform (.read .text)).1 = .ok (.text (some ("G ".points ++ c.url.text))) := by
  intro ops r
  have hnew : Origin.request (.ofText (some "G".points) none "latin-1".points) =
      .ok (bare "G".points "latin-1".points) := rfl
  have hbypasses : ∀ op ∈ ops, op.bypasses = false := by simp [ops, Operation.bypasses]
  have hreached : Reached r := (Reached.start hnew).run hbypasses
  have hcs : Charset.ofName? r.charset = some .latin1 := by decide +kernel
  have hok : r.compose.isOk = true := by decide +kernel
  obtain ⟨u, hu⟩ := Outcome.exists_of_isOk hok
  have hfresh : r.cache.current = none := by decide +kernel
  have hc : (r.perform .getUri).1 = .ok (.url ⟨u, r.compositions⟩) := by
    rw [perform_getUri, hfresh, hu]
  have hascii : ∀ d ∈ "/a%2Fb;c".points, Percent.isAscii d = true := List.all_eq_true.1 rfl
  obtain ⟨target, huri, -, hwith, htext⟩ :=
    getUri_renderings hreached hcs rfl (p := "/a%2Fb;c".points) rfl rfl hascii rfl hc
  exact ⟨hreached, _, target, hc, huri, hwith _ rfl, htext _ rfl "https".points rfl rfl⟩

end Request
end HttpUri
