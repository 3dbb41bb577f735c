import HttpUri.Proofs.Query.Stability
import HttpUri.Proofs.Request.Composable
import HttpUri.Proofs.Request.Decomposition
import HttpUri.Proofs.Url.Host

/-! What a reference says makes up a URL again, with the same host, port and parameters. -/
namespace HttpUri

namespace Message
variable {m : Message} {u v : Url} {cs : Charset} {verb charset text : Text}

theorem TakenFrom.authority_eq_none [Codecs] (ht : m.TakenFrom verb charset u) :
    m.authority = none ↔ u.host = none := by
  refine ⟨fun hm => ?_, ht.noHost⟩
  cases hhost : u.host with
  | none => rfl
  | some host =>
    obtain ⟨a, ha, -⟩ := ht.host host hhost
    exact nomatch hm.symm.trans ha

theorem TakenFrom.slashes_targetPath [Codecs] (ht : m.TakenFrom verb charset u) :
    (∀ t, targetPath m.path ≠ .char '/' :: .char '/' :: t) ↔
      ¬ [.char '/', .char '/'] <+: u.path := by
  have hstart : [.char '/', .char '/'] <+: u.path ↔ ∃ t, u.path = .char '/' :: .char '/' :: t := by
    simp only [List.IsPrefix, List.cons_append, List.nil_append, eq_comm]
  rw [hstart, not_exists, ht.path]
  refine forall_congr' fun t => not_congr ?_
  by_cases hnil : u.path = []
  · simp [hnil, targetPath]
  · rw [if_neg hnil, targetPath]
    split
    · exact Iff.rfl
    · next hhead =>
      refine iff_of_false (fun heq => hhead ?_) fun heq => hhead ?_
      · rw [(List.cons.inj heq).2]
        rfl
      · rw [heq]
        rfl

theorem TakenFrom.accepted [Codecs] (ht : m.TakenFrom verb charset u) (hu : Url.parse text = .ok u)
    (hbreaks : UrlParts.Unbroken text) : ∀ x ∈ m.builder.location,
      (∃ host, AuthorityParts.Accepted x host m.builder.portDigits) ∧
        UrlParts.checkLookalikes x = .ok () := by
  intro x hx
  obtain ⟨host, hb, rfl⟩ := Option.map_eq_some_iff.1 hx
  obtain ⟨a, hau, rfl⟩ := Option.map_eq_some_iff.1 hb
  obtain ⟨hhost, -⟩ := ht.of_authority hau
  obtain ⟨hstanding, hlook⟩ := Url.standing_of_parse hu hbreaks hhost
  exact ⟨⟨_, hstanding.accepted m.builder.all_portDigits⟩, hlook _ m.builder.all_portDigits⟩

theorem TakenFrom.encodable [Codecs] (ht : m.TakenFrom verb charset u)
    (hcs : Charset.ofName? charset = some .utf8) (hu : Url.parse text = .ok u) :
    (∀ p ∈ m.path, p.all Charset.utf8.has = true) ∧
      ∀ params ∈ m.parameters, ∀ p ∈ params, Query.Encodable .utf8 p := by
  obtain ⟨hpath, hquery⟩ := Url.isScalar_of_parse hu
  constructor
  · intro p hp
    obtain rfl : _ = p := Option.some.inj (ht.path.symm.trans hp)
    rw [Charset.has_utf8]
    split
    · rfl
    · exact hpath
  · intro params hparams
    refine (Query.exists_format_iff_encodable hcs).1 ?_
    cases hraw : u.query with
    | none => exact nomatch hparams.symm.trans (ht.noQuery hraw)
    | some raw =>
      obtain ⟨list, hparse, hlist⟩ := ht.query raw hraw
      obtain rfl : params = list := Option.mem_unique hparams hlist
      exact (Query.exists_format_of_parse_iff hcs Charset.has_utf8 hparse).2 (hquery raw hraw)

/-- In UTF-8, a URL can be composed of all that a reference says but a path of two slashes without a
host. -/
theorem TakenFrom.exists_compose_iff [Codecs] (ht : m.TakenFrom verb charset u)
    (hcs : Charset.ofName? charset = some .utf8) (hu : Url.parse text = .ok u)
    (hbreaks : UrlParts.Unbroken text) :
    (∃ v, m.compose = .ok v) ↔ ¬ (u.host = none ∧ [.char '/', .char '/'] <+: u.path) := by
  have hown : Charset.ofName? m.charset = some .utf8 := ht.charset ▸ hcs
  have hparts := exists_ingredients_iff hown rfl
  rw [ht.authority_eq_none, ht.slashes_targetPath, ← not_and] at hparts
  constructor
  · intro h
    obtain ⟨v, hv⟩ := h
    obtain ⟨path, query, hin, -⟩ := Builder.build_eq_ok.1 hv
    exact (hparts.1 ⟨path, query, hin⟩).2.2.1
  · intro hno
    have hscheme : ∀ a ∈ m.authority, ∀ n ∈ m.scheme, n ∈ Abnf.scheme := fun _ _ n hn =>
      Abnf.mem_scheme.2 (Url.isScheme_of_parse hu n (ht.scheme ▸ hn))
    have hhost : ∀ a ∈ m.authority, Grammar.isHost a.hostname = true := fun a hau =>
      (Url.standing_of_parse hu hbreaks (ht.of_authority hau).1).1.isHost
    obtain ⟨hpath, hquery⟩ := ht.encodable hcs hu
    obtain ⟨path, query, hin⟩ := hparts.2 ⟨hpath, hquery, hno, hscheme, hhost⟩
    exact hin.exists_build hown rfl m.exists_rootedPath (port_builder_lt (ht.port_lt hu))
      (ht.accepted hu hbreaks)

/-- The URL that is composed of what a reference says has the host and the port of the reference and
a query of the same parameters, and no user info and no fragment. -/
theorem TakenFrom.composed [Codecs] (ht : m.TakenFrom verb charset u)
    (hcs : Charset.ofName? charset = some cs) (ha : cs.extendsAscii = true)
    (hu : Url.parse text = .ok u) (hbreaks : UrlParts.Unbroken text) (hv : m.compose = .ok v) :
    v.host = u.host ∧ (u.host ≠ none → v.port = u.port) ∧ v.userInfo = none ∧ v.fragment = none ∧
      ∀ params ∈ m.parameters, params ≠ [] →
        ∃ q, v.query = some q ∧ Query.parse q charset = .ok params := by
  have hcomposed : m.builder.ComposedOf v :=
    Builder.composedOf_of_build hv (detached_builder (ht.charset ▸ hcs))
  have hlocation : v.host = u.host ∧ (u.host ≠ none → v.port = u.port) := by
    cases hm : m.authority with
    | none =>
      have hhost := ht.authority_eq_none.1 hm
      rw [hhost]
      exact ⟨(hcomposed.noHost (builder_of_no_authority hm).2).1, absurd rfl⟩
    | some a =>
      obtain ⟨hhost, hown⟩ := ht.of_authority hm
      obtain ⟨-, hb, hp⟩ := builder_of_authority hm
      obtain ⟨hport, name, hname, hvh, -⟩ := hcomposed.host a.hostname hb
      obtain ⟨hstanding, -⟩ := Url.standing_of_parse hu hbreaks hhost
      obtain rfl : a.hostname = name := Option.some.inj (hstanding.unbracket?.symm.trans hname)
      rw [hvh, hstanding.withoutBreaks_eq, hhost]
      refine ⟨rfl, fun _ => ?_⟩
      rw [hport, hp, hown]
      cases u.port <;> rfl
  refine ⟨hlocation.1, hlocation.2, hcomposed.userInfo, hcomposed.fragment, fun params hp hne => ?_⟩
  obtain ⟨q, hq, hvq⟩ := Builder.format_of_queryText hcomposed.query hp hne
  have hread : ⟨[], none⟩ ∉ params := by
    cases hraw : u.query with
    | none => exact nomatch hp.symm.trans (ht.noQuery hraw)
    | some raw =>
      obtain ⟨list, hparse, hm⟩ := ht.query raw hraw
      obtain rfl : params = list := Option.mem_unique hp hm
      exact Query.not_mem_parse hcs hparse
  have hformat : Query.format params charset = .ok q := ht.charset ▸ hq
  exact ⟨q, hvq, Query.parse_of_format hcs ha hread hformat⟩

end Message

namespace Request
variable {charset text : Text} {u : Url}

/-- In UTF-8, a request for a text without line breaks and tabs that parses has the URL of it in
store, composed anew, unless the text has no host and a path that two slashes begin. That URL has
the host that was parsed, the port that belongs to it and the parameters that were read, but no user
info and no fragment. -/
theorem ofText_rebuilds [Codecs] (hcs : Charset.ofName? charset = some .utf8)
    (hbreaks : UrlParts.Unbroken text) (hu : Url.parse text = .ok u) (method : Text) :
    ∃ r remarks, ofText (some method) (some text) charset = .ok (r, remarks) ∧
      (r.cache.dirty = true ↔ u.host = none ∧ [.char '/', .char '/'] <+: u.path) ∧
      (r.cache.dirty = false → ∃ c, r.cache.current = some c ∧ c.url.host = u.host ∧
        (u.host ≠ none → c.url.port = u.port) ∧ c.url.userInfo = none ∧ c.url.fragment = none ∧
        ∀ params ∈ r.parameters, params ≠ [] →
          ∃ q, c.url.query = some q ∧ Query.parse q charset = .ok params) := by
  obtain ⟨m, ht, hcases⟩ := takeUrl_of_parse hcs method hu
  have hiff := ht.exists_compose_iff hcs hu hbreaks
  rcases hcases with ⟨v, hv, heq⟩ | ⟨why, hwhy, heq⟩
  · refine ⟨_, _, (ofText_of_parse method hu).trans heq, ?_, fun _ => ⟨⟨v, 0⟩, rfl, ?_⟩⟩
    · exact iff_of_false Bool.false_ne_true (hiff.1 ⟨v, hv⟩)
    · exact ht.composed hcs rfl hu hbreaks hv
  · refine ⟨_, _, (ofText_of_parse method hu).trans heq, iff_of_true rfl ?_, nofun⟩
    by_contra hno
    obtain ⟨v, hv⟩ := hiff.2 hno
    exact nomatch hwhy.symm.trans hv

/-- User info that is left out, a zone that holds a space and a bracket, a port with a zero in
front, and no path. -/
theorem ofText_rebuilds_of_zone :
    let text := "x://me:pw@[::1%é [0]:080?q=%41+&&=#f".points
    UrlParts.Unbroken text ∧ ∃ u, Url.parse text = .ok u ∧ u.host = some "::1%é [0".points ∧
      ∃ r remarks c, ofText (some "G".points) (some text) "utf-8".points = .ok (r, remarks) ∧
        r.cache.dirty = false ∧ r.cache.current = some c ∧ c.url.host = some "::1%é [0".points ∧
        c.url.port = some 80 ∧ c.url.userInfo = none ∧ c.url.fragment = none := by
  intro text
  have hcs : Charset.ofName? "utf-8".points = some .utf8 := by decide
  have hbreaks : UrlParts.Unbroken text := UrlParts.unbroken_iff.2 rfl
  have hread : (Url.parse text).toOption.map (fun u => (u.host, u.port)) =
      some (some "::1%é [0".points, some 80) := by decide +kernel
  obtain ⟨u, hu, hparts⟩ := Outcome.toOption_map_eq_some.1 hread
  obtain ⟨hhost, hport⟩ := Prod.mk.inj hparts
  have hne : u.host ≠ none := hhost ▸ Option.some_ne_none _
  obtain ⟨r, remarks, hr, hdirty, hclean⟩ := ofText_rebuilds hcs hbreaks hu "G".points
  have hstored : r.cache.dirty = false := Bool.eq_false_iff.2 fun h => hne (hdirty.1 h).1
  obtain ⟨c, hc, hch, hcp, huser, hfragment, -⟩ := hclean hstored
  exact ⟨hbreaks, u, hu, hhost, r, remarks, c, hr, hstored, hc, hch.trans hhost,
    (hcp hne).trans hport, huser, hfragment⟩

end Request
end HttpUri
