import HttpUri.Proofs.Authority.Parts
import HttpUri.Proofs.Authority.Port
import HttpUri.Proofs.Url.Parts

/-! What a parsed reference says is what its components say. -/
namespace HttpUri

namespace UrlParts
open Components
variable {s t : Text} {p : CodePoint → Bool}

@[simp] theorem withoutBreaks_append (s t : Text) :
    withoutBreaks (s ++ t) = withoutBreaks s ++ withoutBreaks t := List.filter_append ..

@[simp] theorem mem_withoutBreaks {c : CodePoint} : c ∈ withoutBreaks s ↔ c ∈ s ∧
    isBreak c = false := by
  simp [withoutBreaks, List.mem_filter]

theorem withoutBreaks_of_not_mem (h : .char '\t' ∉ s ∧ .char '\r' ∉ s ∧ .char '\n' ∉ s) :
    withoutBreaks s = s := by
  refine List.filter_eq_self.2 fun c hc => ?_
  have hno : c ≠ '\t' ∧ c ≠ '\r' ∧ c ≠ '\n' :=
    ⟨ne_of_mem_of_not_mem hc h.1, ne_of_mem_of_not_mem hc h.2.1, ne_of_mem_of_not_mem hc h.2.2⟩
  simp [isBreak, hno]

theorem withoutBreaks_isEncoded (hp : p '\t' = false ∧ p '\r' = false ∧ p '\n' = false)
    (h : Grammar.isEncoded p s = true) : withoutBreaks s = s := by
  apply withoutBreaks_of_not_mem
  refine ⟨?_, ?_, ?_⟩
  · exact Grammar.not_mem_isEncoded h ⟨by decide, by decide, hp.1⟩
  · exact Grammar.not_mem_isEncoded h ⟨by decide, by decide, hp.2.1⟩
  · exact Grammar.not_mem_isEncoded h ⟨by decide, by decide, hp.2.2⟩

theorem withoutBreaks_isScheme (h : Grammar.isScheme s = true) : withoutBreaks s = s := by
  apply withoutBreaks_of_not_mem
  refine ⟨?_, ?_, ?_⟩ <;> exact Grammar.not_mem_isScheme h (by decide)

theorem withoutBreaks_signed {f : Option Text → Text} {sign : CodePoint} {o : Option Text}
    (hnone : f none = []) (hsome : ∀ t, f (some t) = sign :: t) (hsign : isBreak sign = false)
    (h : ∀ t ∈ o, withoutBreaks t = t) : withoutBreaks (f o) = f o := by
  cases o with
  | none =>
    rw [hnone]
    rfl
  | some t =>
    have ht := h t rfl
    unfold withoutBreaks at ht ⊢
    rw [hsome, List.filter_cons_of_pos (by simp [hsign]), ht]

theorem withoutBreaks_toText {c : Components} (h : Grammar.fits c = true) :
    withoutBreaks (toText c) = toText { c with authority := c.authority.map withoutBreaks } := by
  obtain ⟨hscheme, -, hpath, hquery, hfragment⟩ := Grammar.fits_eq_true.1 h
  obtain ⟨n, a, p, q, f⟩ := c
  have hn : withoutBreaks (schemeText n) = schemeText n := by
    cases n with
    | none => rfl
    | some n =>
      unfold schemeText
      rw [withoutBreaks_append, withoutBreaks_isScheme (hscheme n rfl).1]
      rfl
  have ha : withoutBreaks (authorityText a) = authorityText (a.map withoutBreaks) := by
    cases a <;> rfl
  have hp : withoutBreaks p = p := withoutBreaks_isEncoded (by decide) hpath
  have hq : withoutBreaks (queryText q) = queryText q :=
    withoutBreaks_signed rfl (fun _ => rfl) rfl fun t ht =>
      withoutBreaks_isEncoded (by decide) (hquery t ht)
  have hf : withoutBreaks (fragmentText f) = fragmentText f :=
    withoutBreaks_signed rfl (fun _ => rfl) rfl fun t ht =>
      withoutBreaks_isEncoded (by decide) (hfragment t ht)
  simp only [toText, withoutBreaks_append, hn, ha, hp, hq, hf]

theorem ofText_withoutBreaks (h : Grammar.isReference s = true) :
    Components.ofText (withoutBreaks s) = { Components.ofText s with
      authority := (Components.ofText s).authority.map withoutBreaks } := by
  have hsep := separated_ofText s
  have htext := toText_ofText s
  have hfits : Grammar.fits (Components.ofText s) = true := h
  generalize Components.ofText s = c at *
  subst htext
  rw [withoutBreaks_toText hfits]
  refine ofText_toText ⟨hsep.scheme, ?_, ?_, ?_, hsep.path, hsep.query⟩
  · exact fun hn ha => hsep.noScheme hn (Option.map_eq_none_iff.1 ha)
  · intro a ha
    obtain ⟨b, hb, rfl⟩ := Option.map_eq_some_iff.1 ha
    obtain ⟨hends, hp⟩ := hsep.authority b hb
    exact ⟨fun d hd => hends d (mem_withoutBreaks.1 hd).1, hp⟩
  · exact fun ha => hsep.noAuthority (Option.map_eq_none_iff.1 ha)

theorem authority_withoutBreaks (c : Components) :
    (c.authority.map withoutBreaks).getD [] = withoutBreaks (c.authority.getD []) := by
  cases c.authority <;> rfl

/-- The parts of a reference are its components, breaks in the authority left out. -/
theorem ofText_eq_of_isReference {c : Components} {a : Text} (hc : Components.ofText s = c)
    (ha : withoutBreaks (c.authority.getD []) = a) (href : Grammar.isReference s = true) :
    UrlParts.ofText s = do
      checkBrackets a
      checkLookalikes a
      return ⟨(c.scheme.getD []).map CodePoint.toLower, a, c.path, c.query.getD [],
        c.fragment.getD []⟩ := by
  subst hc ha
  have hnames : ∀ n ∈ (Components.ofText s).scheme, Grammar.isScheme n = true :=
    fun n hn => ((Grammar.fits_eq_true.1 href).1 n hn).1
  have heq := ofText_eq (ofText_withoutBreaks href) hnames
  rwa [authority_withoutBreaks] at heq

theorem ofText_of_isReference {c : Components} (hc : Components.ofText s = c)
    (href : Grammar.isReference s = true) {parts : UrlParts} :
    let a := withoutBreaks (c.authority.getD [])
    UrlParts.ofText s = .ok parts ↔ checkBrackets a = .ok () ∧ checkLookalikes a = .ok () ∧
      parts = ⟨(c.scheme.getD []).map CodePoint.toLower, a, c.path, c.query.getD [],
        c.fragment.getD []⟩ := by
  intro a
  subst hc
  have hnames : ∀ n ∈ (Components.ofText s).scheme, Grammar.isScheme n = true :=
    fun n hn => ((Grammar.fits_eq_true.1 href).1 n hn).1
  have heq : UrlParts.ofText s = .ok parts ↔ _ := ofText_eq_ok (ofText_withoutBreaks href) hnames
  rwa [authority_withoutBreaks] at heq

end UrlParts

namespace Url
open Components UrlParts
variable {s : Text} {u : Url}

theorem take_scheme {c : Components} (hsep : c.Separated) (hs : toText c = s) :
    (if (c.scheme.getD []).map CodePoint.toLower = [] then none
      else some (s.take ((c.scheme.getD []).map CodePoint.toLower).length)) = c.scheme := by
  subst hs
  cases hn : c.scheme with
  | none => rfl
  | some n =>
    have hne : n.map CodePoint.toLower ≠ [] := mt List.map_eq_nil_iff.1 (hsep.scheme n hn).1
    simp only [Option.getD_some, List.length_map, if_neg hne]
    simp [toText, hn, schemeText]

theorem query_of_separated {c : Components} (hsep : c.Separated) (hs : toText c = s) :
    (if .char '?' ∈ (cutOr '#' s).1 then some (c.query.getD []) else none) = c.query := by
  subst hs
  have hcut : (cutOr '#' (toText c)).1 =
      schemeText c.scheme ++ authorityText c.authority ++ c.path ++ queryText c.query := by
    unfold toText
    rw [cutOr_append rfl (fun _ => rfl) hsep.hash_not_mem]
  rw [hcut]
  cases c.query with
  | none =>
    apply if_neg
    unfold queryText
    rw [List.append_nil]
    exact hsep.not_mem rfl
  | some q => exact if_pos (List.mem_append_right _ List.mem_cons_self)

theorem fragment_of_separated {c : Components} (hsep : c.Separated) (hs : toText c = s) :
    (if .char '#' ∈ s then some (c.fragment.getD []) else none) = c.fragment := by
  subst hs
  cases hf : c.fragment with
  | none =>
    apply if_neg
    unfold toText
    rw [hf, fragmentText, List.append_nil]
    exact hsep.hash_not_mem
  | some f =>
    apply if_pos
    unfold toText
    rw [hf]
    exact List.mem_append_right _ List.mem_cons_self

def ofParts (s : Text) (parts : UrlParts) (port : Option Nat) : Url where
  text := s
  parts := parts
  scheme := if parts.scheme = [] then none else some (s.take parts.scheme.length)
  userInfo := (AuthorityParts.ofText parts.authority).userInfo
  host :=
    if (AuthorityParts.ofText parts.authority).host = [] then none
    else some (AuthorityParts.ofText parts.authority).host
  port := port
  path := parts.path
  query := if .char '?' ∈ (UrlParts.cutOr '#' s).1 then some parts.query else none
  fragment := if .char '#' ∈ s then some parts.fragment else none

theorem parse_eq {parts : UrlParts} (href : Grammar.isReference s = true)
    (hparts : UrlParts.ofText s = .ok parts) : parse s =
      (parsePort (AuthorityParts.ofText parts.authority).port s).map (ofParts s parts) := by
  have hpass : ¬ Grammar.isReference s = false := by simp [href]
  unfold parse
  rw [if_neg hpass, hparts]
  dsimp only
  cases parsePort (AuthorityParts.ofText parts.authority).port s <;> rfl

theorem parse_of_long {parts : UrlParts} (href : Grammar.isReference s = true)
    (hparts : UrlParts.ofText s = .ok parts) {d : Text}
    (hd : d ∈ (AuthorityParts.ofText parts.authority).port)
    (hdigits : Numeral.isDigits d = true) (hlong : Numeral.digitLimit < d.length) :
    parse s = .error (.tooManyDigits d.length) := by
  have hport : (AuthorityParts.ofText parts.authority).port = some d := hd
  rw [parse_eq href hparts, hport, parsePort_of_long hdigits hlong]
  rfl

theorem parse_of_refused {fault : AuthorityFault} (href : Grammar.isReference s = true)
    (hparts : UrlParts.ofText s = .error fault) : parse s = .error (.url (.refused s fault)) := by
  have hpass : ¬ Grammar.isReference s = false := by simp [href]
  unfold parse
  rw [if_neg hpass, hparts]

theorem parse_cases (s : Text) : (∃ why, parse s = .error (.url why)) ∨
    ∃ parts, Grammar.isReference s = true ∧ UrlParts.ofText s = .ok parts := by
  by_cases href : Grammar.isReference s = true
  · cases hparts : UrlParts.ofText s with
    | error fault => exact .inl ⟨.refused s fault, parse_of_refused href hparts⟩
    | ok parts => exact .inr ⟨parts, href, rfl⟩
  · have hfail : Grammar.isReference s = false := by simpa using href
    exact .inl ⟨.notReference (.text s), if_pos hfail⟩

theorem parse_eq_ok_iff : parse s = .ok u ↔ ∃ parts port, Grammar.isReference s = true ∧
    UrlParts.ofText s = .ok parts ∧
      parsePort (AuthorityParts.ofText parts.authority).port s = .ok port ∧
        u = ofParts s parts port := by
  constructor
  · intro h
    rcases parse_cases s with ⟨why, hwhy⟩ | ⟨parts, href, hparts⟩
    · exact nomatch hwhy.symm.trans h
    · rw [parse_eq href hparts] at h
      obtain ⟨port, hport, rfl⟩ := Outcome.map_eq_ok.1 h
      exact ⟨parts, port, href, hparts, hport, rfl⟩
  · intro h
    obtain ⟨parts, port, href, hparts, hport, rfl⟩ := h
    rw [parse_eq href hparts]
    exact Outcome.map_eq_ok.2 ⟨port, hport, rfl⟩

theorem text_of_parse (h : parse s = .ok u) : u.text = s := by
  obtain ⟨parts, port, -, -, -, rfl⟩ := parse_eq_ok_iff.1 h
  rfl

/-- What fails to parse is refused, unless it has a port of too many digits and no other fault. -/
theorem parse_eq_error {e : Error} (h : parse s = .error e) : (∃ why, e = .url why) ∨
    ∃ parts, Grammar.isReference s = true ∧ UrlParts.ofText s = .ok parts ∧
      ∃ d ∈ (AuthorityParts.ofText parts.authority).port, Numeral.isDigits d = true ∧
        Numeral.digitLimit < d.length ∧ e = .tooManyDigits d.length := by
  rcases parse_cases s with ⟨why, hwhy⟩ | ⟨parts, href, hparts⟩
  · exact .inl ⟨why, Except.error.inj (h.symm.trans hwhy)⟩
  · rw [parse_eq href hparts] at h
    rcases parsePort_eq_error (Outcome.map_eq_error.1 h) with ⟨rfl, -⟩ | hlong
    · exact .inl ⟨_, rfl⟩
    · exact .inr ⟨parts, href, hparts, hlong⟩

theorem parse_eq_ok {c : Components} (hc : Components.ofText s = c) (h : parse s = .ok u) :
    let a := withoutBreaks (c.authority.getD [])
    let parts := AuthorityParts.ofText a
    Grammar.fits c = true ∧ checkBrackets a = .ok () ∧ parsePort parts.port s = .ok u.port ∧
      u.scheme = c.scheme ∧ u.userInfo = parts.userInfo ∧
        u.host = (if parts.host = [] then none else some parts.host) ∧ u.path = c.path ∧
          u.query = c.query ∧ u.fragment = c.fragment := by
  intro a parts
  obtain ⟨parsed, port, href, hparsed, hport, rfl⟩ := parse_eq_ok_iff.1 h
  obtain ⟨hcheck, -, rfl⟩ := (ofText_of_isReference hc href).1 hparsed
  have hsep : c.Separated := hc ▸ separated_ofText s
  have htext : toText c = s := hc ▸ toText_ofText s
  have hscheme := take_scheme hsep htext
  have hquery := query_of_separated hsep htext
  have hfragment := fragment_of_separated hsep htext
  exact ⟨hc ▸ href, hcheck, hport, hscheme, rfl, rfl, rfl, hquery, hfragment⟩

theorem exists_parse {c : Components} (hsep : c.Separated) (hfits : Grammar.fits c = true)
    (hbreaks : withoutBreaks (c.authority.getD []) = c.authority.getD [])
    (hbrackets : checkBrackets (c.authority.getD []) = .ok ())
    (hlookalikes : checkLookalikes (c.authority.getD []) = .ok ())
    (hport : ∀ d ∈ (AuthorityParts.ofText (c.authority.getD [])).port,
      Numeral.isDigits d = true ∧ d.length ≤ Numeral.digitLimit) :
    ∃ u, parse (toText c) = .ok u := by
  have hc : Components.ofText (toText c) = c := ofText_toText hsep
  have href : Grammar.isReference (toText c) = true := by
    unfold Grammar.isReference
    rw [hc, hfits]
  have hnumber : ∃ number, parsePort (AuthorityParts.ofText (c.authority.getD [])).port
      (toText c) = .ok number := exists_parsePort hport
  obtain ⟨number, hnumber⟩ := hnumber
  refine ⟨_, parse_eq_ok_iff.2 ⟨_, number, href,
    (ofText_of_isReference hc href).2 ⟨?_, ?_, rfl⟩, ?_, rfl⟩⟩
  · rw [hbreaks]
    exact hbrackets
  · rw [hbreaks]
    exact hlookalikes
  · rw [hbreaks]
    exact hnumber

end Url
end HttpUri
