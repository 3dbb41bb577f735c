import HttpUri.Proofs.Url.Composition
import HttpUri.Proofs.Url.Path

/-! A composed URL is composed of what it says: taken apart and put together, it comes out again. -/
namespace HttpUri

namespace Grammar
open UrlParts
variable {host name : Text}

theorem unbroken_of_unbracket? (h : unbracket? host = some name) (hbreaks : Unbroken host) :
    Unbroken name := by
  rcases unbracket?_eq_some.1 h with rfl | ⟨rfl, -⟩
  · exact fun c hc => hbreaks c (by simp [hc])
  · exact hbreaks

theorem bracketed_of_unbracket? {p : Option Text} (h : unbracket? host = some name)
    (hhost : isHost host = true)
    (ha : isAuthority (bracketed host ++ AuthorityParts.portText p) = true) :
    bracketed name = bracketed host := by
  obtain ⟨other, hother, hcase⟩ := AuthorityParts.bracketed_of_isAuthority hhost ha
  obtain rfl : name = other := Option.some.inj (h.symm.trans hother)
  rcases hcase with ⟨hip, heq⟩ | ⟨-, rfl, -⟩
  · rw [← AuthorityParts.literal_append_portText] at heq
    rw [bracketed_of_isIpv6 hip, List.append_cancel_right heq]
  · rfl

end Grammar

namespace Url
open UrlParts
variable {s : Text} {u : Url}

theorem parse_text (h : parse s = .ok u) : parse u.text = .ok u := by
  rw [text_of_parse h]
  exact h

theorem isHost_of_parse {c : Components} (hc : Components.ofText s = c) (h : parse s = .ok u)
    (hbreaks : ∀ a ∈ c.authority, Unbroken a) :
    ∀ host ∈ u.host, host ≠ [] ∧ Grammar.isHost host = true := by
  obtain ⟨hfits, -, -, -, -, hhost, -⟩ := parse_eq_ok hc h
  intro host hu
  obtain ⟨hne, heq⟩ := Option.ite_none_left_eq_some.1 (hhost.symm.trans hu)
  cases ha : c.authority with
  | none =>
    rw [ha] at hne
    exact absurd rfl hne
  | some a =>
    rw [ha, Option.getD_some, unbroken_iff.1 (hbreaks a ha)] at hne heq
    obtain rfl : (AuthorityParts.ofText a).host = host := Option.some.inj heq
    exact ⟨hne, AuthorityParts.isHost_of_isAuthority ((Grammar.fits_eq_true.1 hfits).2.1 a ha).2⟩

end Url

namespace Builder
open UrlParts
variable {b d : Builder} {u : Url} {path : Text} {query : Option Text}

theorem unbroken_location (h : ∀ host ∈ b.host, Unbroken host) : ∀ a ∈ b.location, Unbroken a := by
  intro a ha
  obtain ⟨host, hhost, rfl⟩ := Option.map_eq_some_iff.1 ha
  exact (AuthorityParts.unbroken_bracketed (h host hhost)).append
    (AuthorityParts.unbroken_portText b.all_portDigits)

/-- The host of a composed URL is fit to compose one, and stands there as it did. -/
theorem host_of_build [Codecs] (h : b.build = .ok u) (hpath : b.Detached)
    (hbreaks : ∀ host ∈ b.host, Unbroken host) :
    (∀ name ∈ u.host, name ≠ [] ∧ Grammar.isHost name = true) ∧
      u.host.map bracketed = b.host.map bracketed := by
  obtain ⟨path, query, hin, hparse, hc, hauth⟩ := divided_of_build h hpath
  obtain ⟨-, -, -, -, -, hnone, hsome⟩ := composedOf_of_build h hpath
  refine ⟨Url.isHost_of_parse hc hparse (unbroken_location hbreaks), ?_⟩
  cases hb : b.host with
  | none => rw [(hnone hb).1]
  | some host =>
    obtain ⟨-, name, hname, hu, -⟩ := hsome host hb
    have hl : b.location = some (bracketed host ++ AuthorityParts.portText b.portDigits) :=
      Option.map_eq_some_iff.2 ⟨host, hb, rfl⟩
    have hwhole := unbroken_iff.1 (Grammar.unbroken_of_unbracket? hname (hbreaks host hb))
    rw [hu, hwhole, Option.map_some, Option.map_some,
      Grammar.bracketed_of_unbracket? hname (hin.host host hb).2 (hauth _ hl)]

/-- A query has the parameters it was written for, and without one there are none. -/
theorem parse_of_queryText [Codecs] {cs : Charset} (hcs : Charset.ofName? b.charset = some cs)
    (ha : cs.extendsAscii = true) (hne : ∀ params ∈ b.parameters, ⟨[], none⟩ ∉ params)
    (h : b.queryText = .ok query) :
    query = none ∨ ∃ q params, query = some q ∧ b.parameters = some params ∧
      Query.parse q b.charset = .ok params := by
  unfold queryText at h
  split at h
  · exact .inl (Except.ok.inj h).symm
  · exact .inl (Except.ok.inj h).symm
  · next params _ hsome =>
    obtain ⟨q, hq, rfl⟩ := Outcome.map_eq_ok.1 h
    exact .inr ⟨q, params, rfl, hsome, Query.parse_of_format hcs ha (hne params hsome) hq⟩

theorem queryText_congr [Codecs] (hparams : d.parameters = b.parameters)
    (hcharset : d.charset = b.charset) :
    d.queryText = b.queryText := by
  rw [queryText, queryText, hparams, hcharset]

theorem Ingredients.build_congr [Codecs] (hb : Ingredients b path query)
    (hd : Ingredients d path query)
    (hscheme : d.scheme = b.scheme) (hlocation : d.location = b.location) :
    d.build = b.build := by
  have hsame : d.composed path query = b.composed path query := by
    rw [composed, composed, hscheme, hlocation]
  rw [hd.build_eq, hb.build_eq, hsame]

/-- A builder holds what a URL says. -/
structure Restates [Codecs] (d : Builder) (charset : Text) (u : Url) : Prop where
  charset : d.charset = charset
  scheme : d.scheme = u.scheme
  host : d.host = u.host
  port : u.host ≠ none → d.port = u.port.elim (-1) Int.ofNat
  path : d.rootedPath = u.path
  query : d.queryText = .ok u.query

theorem portDigits_eq (hu : u.port = if 0 ≤ b.port then some b.port.toNat else none)
    (hd : d.port = u.port.elim (-1) Int.ofNat) : d.portDigits = b.portDigits := by
  rw [hu] at hd
  by_cases hp : 0 ≤ b.port
  · rw [if_pos hp, Option.elim_some] at hd
    have hport : d.port = b.port := hd.trans (Int.toNat_of_nonneg hp)
    rw [portDigits, portDigits, hport]
  · rw [if_neg hp, Option.elim_none] at hd
    rw [portDigits, portDigits, hd, if_neg hp, if_neg (by decide)]

theorem location_eq (b : Builder) :
    b.location = (b.host.map bracketed).map (· ++ AuthorityParts.portText b.portDigits) := by
  rw [location, Option.map_map]
  rfl

theorem Restates.location [Codecs] (hd : Restates d b.charset u) (h : b.build = .ok u)
    (hpath : b.Detached) (hbreaks : ∀ host ∈ b.host, Unbroken host) :
    d.location = b.location := by
  obtain ⟨-, hhost⟩ := host_of_build h hpath hbreaks
  rw [location_eq, location_eq, hd.host, hhost]
  cases hb : b.host with
  | none => rfl
  | some host =>
    obtain ⟨hport, name, -, hname, -⟩ := (composedOf_of_build h hpath).host host hb
    rw [portDigits_eq hport (hd.port (by simp [hname]))]

theorem Restates.build [Codecs] {cs : Charset} (hd : Restates d b.charset u) (h : b.build = .ok u)
    (hdetached : b.Detached) (hbreaks : ∀ host ∈ b.host, Unbroken host)
    (hcs : Charset.ofName? b.charset = some cs) (ha : cs.extendsAscii = true) :
    d.build = .ok u := by
  obtain ⟨path, query, hin, -⟩ := build_eq_ok.1 h
  obtain ⟨hscheme, -, -, hpath, hquery, -⟩ := composedOf_of_build h hdetached
  obtain ⟨hfit, hhost⟩ := host_of_build h hdetached hbreaks
  obtain rfl : path = u.path := Except.ok.inj (hin.encoded.symm.trans hpath)
  obtain rfl : query = u.query := Except.ok.inj (hin.formatted.symm.trans hquery)
  have hsame : d.scheme = b.scheme := hd.scheme.trans hscheme
  have hagain : Ingredients d u.path u.query := by
    refine ⟨?_, hd.query, hsame ▸ hin.scheme, hd.host ▸ hfit, fun hnone => hin.slashes ?_⟩
    · rw [hd.charset, hd.path]
      exact encodePath_encoded hcs ha hpath
    · rw [hd.host] at hnone
      rw [hnone] at hhost
      exact Option.map_eq_none_iff.1 hhost.symm
  rw [hin.build_congr hagain hsame (hd.location h hdetached hbreaks), h]

end Builder
end HttpUri
