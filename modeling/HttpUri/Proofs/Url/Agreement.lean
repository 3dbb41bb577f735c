import HttpUri.Proofs.Authority.Composed
import HttpUri.Proofs.Reference.Zones
import HttpUri.Text.Lower

/-! The division of a URL into its parts agrees with that of a reference into its components, on
whatever parses. -/
namespace HttpUri

namespace Text

theorem lower_of_ascii {s : Text} (h : ∀ c ∈ s, Percent.isAscii c = true) :
    lower s = s.map CodePoint.toLower := by
  suffices hcase : ∀ cased, lowerAfter cased s = s.map CodePoint.toLower from hcase false
  intro cased
  induction s generalizing cased with
  | nil => rfl
  | cons c rest ih =>
    obtain ⟨hc, hrest⟩ := List.forall_mem_cons.1 h
    have hsigma : c ≠ 'Σ' := by
      rintro rfl
      exact absurd hc (by decide)
    have hdotted : c ≠ '\u0130' := by
      rintro rfl
      exact absurd hc (by decide)
    have hsmall : Lower.ofChar c = c.toLower := if_pos (of_decide_eq_true hc)
    rw [lowerAfter, if_neg hsigma, if_neg hdotted, hsmall, ih hrest]
    rfl

end Text

namespace UrlParts
variable {s : Text}

/-- Line breaks and tabs stand in the zone of an address in brackets, if anywhere. -/
def BreaksInZone (s : Text) : Prop :=
  Unbroken s ∨ ∃ before address zone after : Text,
    s = before ++ .char '[' :: (address ++ .char '%' :: zone) ++ .char ']' :: after ∧
      Ip.isIpv6 (address ++ .char '%' :: zone) = true ∧
        Unbroken before ∧ Unbroken address ∧ Unbroken after

theorem breaksInZone_of_isReference (h : Grammar.isReference s = true) : BreaksInZone s := by
  have hforeign : ∀ c, isBreak c = true → Grammar.isForeign c = true := by
    intro c hc
    simp only [isBreak, Bool.or_eq_true, decide_eq_true_eq] at hc
    rcases hc with (rfl | rfl) | rfl <;> rfl
  exact (Grammar.onlyInZone_of_isReference h).mono hforeign

end UrlParts

namespace Url
open UrlParts
variable {s : Text} {u : Url}

/-- What parses holds line breaks and tabs only in a zone, and its parts are the components of the
text without them. -/
theorem parse_eq_components (h : parse s = .ok u) :
    let c := Components.ofText (withoutBreaks s)
    BreaksInZone s ∧
      UrlParts.ofText s = .ok u.parts ∧
      u.parts = ⟨Text.lower (c.scheme.getD []), c.authority.getD [], c.path, c.query.getD [],
        c.fragment.getD []⟩ ∧
      (u.scheme = c.scheme ∧ u.path = c.path ∧ u.query = c.query ∧ u.fragment = c.fragment) ∧
      (∀ a ∈ c.authority, a ≠ [] →
        let parts := AuthorityParts.ofText a
        u.userInfo = parts.userInfo ∧
          u.host = (if parts.host = [] then none else some parts.host) ∧
          (parts.port.getD [] = [] → u.port = none) ∧
          ∀ d ∈ parts.port, d ≠ [] → Numeral.isDigits d = true ∧ u.port = some (Numeral.value d)) ∧
      (c.authority.getD [] = [] → u.userInfo = none ∧ u.host = none ∧ u.port = none) := by
  intro c
  obtain ⟨parts, port, href, hparts, -, rfl⟩ := parse_eq_ok_iff.1 h
  obtain ⟨hfits, -, hport, hscheme, huser, hhost, hpath, hquery, hfragment⟩ := parse_eq_ok rfl h
  have hfree : c = { Components.ofText s with
      authority := (Components.ofText s).authority.map withoutBreaks } := ofText_withoutBreaks href
  have hauthority : c.authority.getD [] =
      withoutBreaks ((Components.ofText s).authority.getD []) := by
    rw [hfree]
    cases (Components.ofText s).authority <;> rfl
  have hsc : c.scheme = (Components.ofText s).scheme := by rw [hfree]
  have hnames : ∀ n ∈ c.scheme, Grammar.isScheme n = true := by
    intro n hn
    exact ((Grammar.fits_eq_true.1 hfits).1 n (hsc ▸ hn)).1
  have hlower : (c.scheme.getD []).map CodePoint.toLower = Text.lower (c.scheme.getD []) := by
    cases hn : c.scheme with
    | none => rfl
    | some n => exact (Text.lower_of_ascii (Grammar.isAscii_of_isScheme (hnames n hn))).symm
  have hsplit := ((ofText_eq_ok rfl hnames).1 hparts).2.2
  rw [← hauthority] at hport huser hhost
  refine ⟨breaksInZone_of_isReference href, hparts, hlower ▸ hsplit, ?_, ?_, ?_⟩
  · rw [hfree]
    exact ⟨hscheme, hpath, hquery, hfragment⟩
  · intro a ha _
    have hsame : c.authority.getD [] = a := by
      have heq : c.authority = some a := ha
      rw [heq]
      rfl
    rw [hsame] at hport huser hhost
    exact ⟨huser, hhost, eq_of_parsePort hport⟩
  · intro hempty
    rw [hempty] at hport huser hhost
    exact ⟨huser, hhost, (eq_of_parsePort hport).1 rfl⟩

/-- Capitals in the scheme, and a tab in the zone. -/
theorem parse_eq_components_of_zone :
    let s := "HTTP://me@[::1%a\tb]:80/p?q#f".points
    ∃ u, parse s = .ok u ∧ BreaksInZone s ∧
      u.parts = ⟨"http".points, "me@[::1%ab]:80".points, "/p".points, [.char 'q'], [.char 'f']⟩ ∧
      u.scheme = some "HTTP".points ∧ u.host = some "::1%ab".points ∧ u.port = some 80 := by
  intro s
  have hok : (parse s).isOk = true := by decide +kernel
  cases hs : parse s with
  | error e => exact nomatch hs ▸ hok
  | ok u =>
    obtain ⟨hbreaks, -, hparts, ⟨hscheme, -⟩, hauthority, -⟩ := parse_eq_components hs
    obtain ⟨-, hhost, -, hport⟩ := hauthority "me@[::1%ab]:80".points rfl (by decide)
    exact ⟨u, rfl, hbreaks, hparts, hscheme, hhost,
      (hport [.char '8', .char '0'] rfl (by decide)).2⟩

end Url
end HttpUri
