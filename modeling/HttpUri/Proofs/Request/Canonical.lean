import HttpUri.Proofs.Request.Coherence
import HttpUri.Proofs.Request.Decomposition
import HttpUri.Proofs.Url.Canonical

/-! A URL that was composed makes a request that composes it again. -/
namespace HttpUri

namespace Message
open UrlParts
variable {m n : Message} {u : Url} {cs : Charset} {method : Text}

theorem exists_slash_path [Codecs] (h : m.compose = .ok u)
    (hcs : Charset.ofName? m.charset = some cs) :
    ∃ t, u.path = .char '/' :: t := by
  obtain ⟨t, ht⟩ := m.exists_rootedPath
  obtain ⟨-, -, -, hpath, -⟩ := Builder.composedOf_of_build h (detached_builder hcs)
  rw [ht] at hpath
  exact Builder.encodePath_slash (Codec.find_of_ofName? hcs) cs.keepsSlash hpath

theorem scheme_of_compose [Codecs] (h : m.compose = .ok u)
    (hcs : Charset.ofName? m.charset = some cs) :
    u.scheme = u.host.map fun _ => u.scheme.getD Host.defaultScheme := by
  obtain ⟨hscheme, -, -, -, -, hnone, hsome⟩ := Builder.composedOf_of_build h (detached_builder hcs)
  cases hm : m.authority with
  | none =>
    obtain ⟨hsc, hhost⟩ := builder_of_no_authority hm
    rw [hscheme, hsc, (hnone hhost).1]
    rfl
  | some a =>
    obtain ⟨hsc, hhost, -⟩ := builder_of_authority hm
    obtain ⟨-, name, -, hname, -⟩ := hsome _ hhost
    rw [hscheme, hsc, hname]
    rfl

theorem TakenFrom.queryText [Codecs] (ht : n.TakenFrom method m.charset u) (h : m.compose = .ok u)
    (hcs : Charset.ofName? m.charset = some cs) (ha : cs.extendsAscii = true)
    (hparams : ∀ params ∈ m.parameters, ⟨[], none⟩ ∉ params) :
    n.builder.queryText = .ok u.query := by
  obtain ⟨-, -, -, -, hquery, -⟩ := Builder.composedOf_of_build h (detached_builder hcs)
  rcases Builder.parse_of_queryText (b := m.builder) hcs ha hparams hquery with
    hnone | ⟨q, params, hq, hsome, hparse⟩
  · have hempty : n.builder.parameters = none := ht.noQuery hnone
    rw [Builder.queryText, hempty, hnone]
  · obtain ⟨again, hagain, hn⟩ := ht.query q hq
    obtain rfl : params = again := Except.ok.inj (hparse.symm.trans hagain)
    have hsame : n.builder.parameters = m.builder.parameters := hn.trans hsome.symm
    rw [Builder.queryText_congr hsame ht.charset, hquery]

theorem TakenFrom.restates [Codecs] (ht : n.TakenFrom method m.charset u) (h : m.compose = .ok u)
    (hcs : Charset.ofName? m.charset = some cs) (ha : cs.extendsAscii = true)
    (hparams : ∀ params ∈ m.parameters, ⟨[], none⟩ ∉ params) :
    n.builder.Restates m.charset u := by
  have hbuilder : n.builder.scheme = u.scheme ∧ n.builder.host = u.host ∧
      (u.host ≠ none → n.builder.port = u.port.elim (-1) Int.ofNat) := by
    rw [scheme_of_compose h hcs]
    cases hu : u.host with
    | none =>
      obtain ⟨hscheme, hhost⟩ := builder_of_no_authority (ht.noHost hu)
      exact ⟨hscheme, hhost, fun hne => absurd rfl hne⟩
    | some host =>
      obtain ⟨a, hau, rfl, hport, -⟩ := ht.host host hu
      obtain ⟨hscheme, hhost, hp⟩ := builder_of_authority hau
      refine ⟨by rw [hscheme, ht.scheme]; rfl, hhost, fun _ => ?_⟩
      rw [hp, hport]
      cases u.port <;> rfl
  obtain ⟨hscheme, hhost, hport⟩ := hbuilder
  refine ⟨ht.charset, hscheme, hhost, hport, ?_, ht.queryText h hcs ha hparams⟩
  obtain ⟨t, hpath⟩ := exists_slash_path h hcs
  rw [n.rootedPath_builder.1, ht.path, hpath]
  rfl

theorem TakenFrom.compose [Codecs] (ht : n.TakenFrom method m.charset u) (h : m.compose = .ok u)
    (hcs : Charset.ofName? m.charset = some cs) (ha : cs.extendsAscii = true)
    (hparams : ∀ params ∈ m.parameters, ⟨[], none⟩ ∉ params)
    (hbreaks : ∀ a ∈ m.authority, Unbroken a.hostname) : n.compose = .ok u := by
  have hhosts : ∀ host ∈ m.builder.host, Unbroken host := by
    intro host hhost
    obtain ⟨a, hau, rfl⟩ := Option.map_eq_some_iff.1 hhost
    exact hbreaks a hau
  exact (ht.restates h hcs ha hparams).build h (detached_builder hcs) hhosts hcs ha

theorem parse_of_compose [Codecs] (h : m.compose = .ok u) : Url.parse u.text = .ok u := by
  obtain ⟨path, query, -, hparse⟩ := Builder.build_eq_ok.1 h
  exact Url.parse_text hparse

end Message

namespace Request
variable {r : Request} {cs : Charset}

/-- The text of a URL that a request gives makes a request that has this URL in store and gives it
again. -/
theorem getUri_canonical [Codecs] (h : Reached r) (hcs : Charset.ofName? r.charset = some cs)
    (ha : cs.extendsAscii = true) (hparams : ∀ params ∈ r.parameters, ⟨[], none⟩ ∉ params)
    (hbreaks : ∀ a ∈ r.authority, UrlParts.Unbroken a.hostname) {c : Composed}
    (hc : (r.perform .getUri).1 = .ok (.url c)) (method : Text) :
    ∃ r', ofText (some method) (some c.url.text) r.charset = .ok (r', []) ∧
      r'.cache.dirty = false ∧ ∃ d, (r'.perform .getUri).1 = .ok (.url d) ∧ d.url = c.url := by
  have hu : r.compose = .ok c.url := h.coherent.compose_of_getUri hc
  have hparse := Message.parse_of_compose hu
  obtain ⟨m, ht, hcases⟩ := takeUrl_of_parse hcs method hparse
  have hm : m.compose = .ok c.url := ht.compose hu hcs ha hparams hbreaks
  rcases hcases with ⟨v, hv, hok⟩ | ⟨why, hwhy, -⟩
  · obtain rfl : v = c.url := Except.ok.inj (hv.symm.trans hm)
    exact ⟨_, (ofText_of_parse method hparse).trans hok, rfl, ⟨c.url, 0⟩, rfl, rfl⟩
  · cases hwhy.symm.trans hm

/-- An address with a letter, a space and a bracket in its zone, a percent sign that is none of a
triplet, and a query whose empty piece is lost when it is read. -/
theorem getUri_canonical_of_zone :
    let host : Authority := ⟨"::1%é [0".points, 8080, some "me".points, by decide⟩
    let ops : List Operation := [.setAuthority (some host), .setPath (some "a%2F%zü".points),
      .setQueryString (some "q=ü+%26&&=&x".points)]
    let r := (bare "G".points "latin-1".points).run ops
    Reached r ∧ ∃ c, (r.perform .getUri).1 = .ok (.url c) ∧ ∃ r',
      ofText (some "P".points) (some c.url.text) "latin-1".points = .ok (r', []) ∧
        ∃ d, (r'.perform .getUri).1 = .ok (.url d) ∧ d.url = c.url := by
  intro host ops r
  have hnew : Origin.request (.ofText (some "G".points) none "latin-1".points) =
      .ok (bare "G".points "latin-1".points) := rfl
  have hreached : Reached r := (Reached.start hnew).run <| List.forall_mem_cons.2
    ⟨rfl, List.forall_mem_cons.2 ⟨rfl, List.forall_mem_singleton.2 rfl⟩⟩
  have hcs : Charset.ofName? r.charset = some .latin1 := by decide +kernel
  have hlist : r.parameters = some [⟨[.char 'q'], some "ü &".points⟩, ⟨[], some []⟩,
      ⟨[.char 'x'], none⟩] := by
    decide +kernel
  have hparams : ∀ params ∈ r.parameters, ⟨[], none⟩ ∉ params := by
    intro params hp
    rw [hlist] at hp
    obtain rfl := Option.some.inj hp
    decide
  have hbreaks : ∀ a ∈ r.authority, UrlParts.Unbroken a.hostname := by
    intro a ha
    obtain rfl : host = a := Option.some.inj ha
    exact UrlParts.unbroken_iff.2 rfl
  have hok : r.compose.isOk = true := by decide +kernel
  cases hu : r.compose with
  | error e => exact nomatch hu ▸ hok
  | ok u =>
    have hfresh : r.cache.current = none := by decide +kernel
    have hc : (r.perform .getUri).1 = .ok (.url ⟨u, r.compositions⟩) := by
      rw [perform_getUri, hfresh, hu]
    obtain ⟨r', hmade, -, hagain⟩ :=
      getUri_canonical hreached hcs rfl hparams hbreaks hc "P".points
    exact ⟨hreached, _, hc, r', hmade, hagain⟩

end Request
end HttpUri
