import HttpUri.Proofs.Authority.Accepted

/-! The host that a reference names can be put into an authority again. -/
namespace HttpUri

namespace UrlParts
variable {t r info : Text}

theorem literal_of_checkBrackets (hat : .char '@' ∉ .char '[' :: t)
    (h : checkBrackets (.char '[' :: t) = .ok ()) :
    ∃ x p, t = x ++ .char ']' :: AuthorityParts.portText p ∧ .char ']' ∉ x := by
  have hclose : .char ']' ∈ t := by
    by_contra hno
    have hopen : .char '[' ∈ .char '[' :: t := List.mem_cons_self
    have hnone : .char ']' ∉ .char '[' :: t := by simp [hno]
    unfold checkBrackets at h
    rw [decide_eq_true hopen, decide_eq_false hnone] at h
    exact nomatch h
  obtain ⟨x, y, rfl, hx⟩ := List.eq_append_cons_of_mem hclose
  rcases ((checkBrackets_bracketed hx hat).1 h).1 with rfl | hcolon
  · exact ⟨x, none, rfl, hx⟩
  · obtain ⟨d, rfl⟩ := List.head?_eq_some_iff.1 hcolon
    exact ⟨x, some d, rfl, hx⟩

/-- User info has no part in the check of the brackets. -/
theorem checkBrackets_of_userInfo (hinfo : .char '[' ∉ info ∧ .char ']' ∉ info)
    (hat : .char '@' ∉ r) :
    checkBrackets (info ++ .char '@' :: r) = checkBrackets r := by
  have hopen : decide (.char '[' ∈ info ++ .char '@' :: r) = decide (.char '[' ∈ r) := by
    simp [hinfo.1]
  have hclose : decide (.char ']' ∈ info ++ .char '@' :: r) = decide (.char ']' ∈ r) := by
    simp [hinfo.2]
  have hafter : Grammar.afterUserInfo (info ++ .char '@' :: r) = Grammar.afterUserInfo r := by
    rw [Grammar.afterUserInfo_append hat, Grammar.afterUserInfo_of_not_mem hat]
  unfold checkBrackets
  rw [hopen, hclose, hafter]

end UrlParts

namespace AuthorityParts
open UrlParts
variable {a r t : Text}

theorem Standing.unbracket? (h : Standing t) : Grammar.unbracket? t = some t := by
  rcases h with hname | hliteral
  · exact Grammar.unbracket?_of_not_mem (Grammar.not_mem_isEncoded hname (by decide))
      (Grammar.not_mem_isEncoded hname (by decide))
  · have hlast : t.getLast? ≠ some (.char ']') := fun h => hliteral.close (List.mem_of_getLast? h)
    exact Grammar.unbracket?_eq_some.2 (.inr ⟨rfl, Ip.head?_of_isIpv6 hliteral.address rfl, hlast⟩)

theorem Standing.isHost (h : Standing t) : Grammar.isHost t = true := by
  refine Grammar.isHost_iff.2 ⟨t, h.unbracket?, ?_⟩
  rcases h with hname | hliteral
  · rw [if_neg (Grammar.not_mem_isEncoded hname (by decide)), hname]
  · rw [if_pos (Ip.colon_mem_of_isIpv6 hliteral.address), hliteral.address]

theorem Standing.withoutBreaks_eq (h : Standing t) : withoutBreaks t = t := by
  rcases h with hname | hliteral
  · exact withoutBreaks_isEncoded (by decide) hname
  · exact unbroken_iff.1 hliteral.unbroken

theorem host_of_isLocation (h : Grammar.isLocation r = true) (hat : .char '@' ∉ r)
    (hcheck : checkBrackets r = .ok ()) : (∀ c ∈ (hostAndPort r).1, c ∈ r) ∧
      (Grammar.isEncoded Grammar.isNameChar (hostAndPort r).1 = true ∨
        Ip.isIpv6 (hostAndPort r).1 = true ∧ .char ']' ∉ (hostAndPort r).1) := by
  have hhost := (Bool.and_eq_true_iff.1 h).2
  by_cases hb : r.head? = some (.char '[')
  · obtain ⟨t, rfl⟩ := List.head?_eq_some_iff.1 hb
    obtain ⟨x, p, rfl, hclose⟩ := literal_of_checkBrackets hat hcheck
    rw [if_pos hb, Bool.and_eq_true, decide_eq_true_eq, hostAndPort_literal p hclose] at hhost
    rw [hostAndPort_literal p hclose]
    refine ⟨fun c hc => ?_, .inr ⟨Abnf.isIpv6_of_isHost hhost.2 hhost.1 hclose, hclose⟩⟩
    exact List.mem_cons_of_mem _ (List.mem_append_left _ hc)
  · rw [if_neg hb] at hhost
    obtain ⟨x, p, rfl, hcolon, heq⟩ := hostAndPort_of_head_ne hb
    rw [heq] at hhost ⊢
    have hhead : x.head? ≠ some (.char '[') := Text.head?_ne_of_append hb
    exact ⟨fun c hc => List.mem_append_left _ hc,
      .inl (Abnf.isEncoded_of_isHost hhost hcolon hhead)⟩

theorem location_of_isAuthority (h : Grammar.isAuthority a = true) : ∃ r,
    Grammar.isLocation r = true ∧ .char '@' ∉ r ∧ checkBrackets a = checkBrackets r ∧
      (ofText a).host = (hostAndPort r).1 ∧ ∀ c ∈ r, c ∈ a := by
  rcases Grammar.isAuthority_cases h with ⟨hlocation, hat⟩ | ⟨info, r, rfl, huser, hlocation, hat⟩
  · exact ⟨a, hlocation, hat, rfl, by rw [ofText_of_not_mem hat], fun _ => id⟩
  · have hinfo : .char '[' ∉ info ∧ .char ']' ∉ info :=
      ⟨Grammar.not_mem_isEncoded huser (by decide),
      Grammar.not_mem_isEncoded huser (by decide)⟩
    refine ⟨r, hlocation, hat, checkBrackets_of_userInfo hinfo hat, ?_, fun c hc => ?_⟩
    · rw [ofText_append hat]
    · exact List.mem_append_right _ (List.mem_cons_of_mem _ hc)

theorem standing_of_isAuthority (h : Grammar.isAuthority a = true)
    (hcheck : checkBrackets a = .ok ()) (hfree : ∀ d ∈ a, Components.endsAuthority d = false)
    (hbreaks : Unbroken a) : Standing (ofText a).host ∧ ∀ c ∈ (ofText a).host, c ∈ a := by
  obtain ⟨r, hlocation, hat, hsame, hhost, hsub⟩ := location_of_isAuthority h
  obtain ⟨hmem, hcases⟩ := host_of_isLocation hlocation hat (hsame ▸ hcheck)
  rw [hhost]
  refine ⟨hcases.imp_right fun hliteral => ?_, fun c hc => hsub c (hmem c hc)⟩
  exact ⟨hliteral.1, hliteral.2, fun hc => hat (hmem _ hc),
    fun d hd => hfree d (hsub d (hmem d hd)),
    fun d hd => hbreaks d (hsub d (hmem d hd))⟩

end AuthorityParts

theorem Components.mem_of_mem_authority {s a : Text} (ha : a ∈ (ofText s).authority) :
    ∀ c ∈ a, c ∈ s := by
  have hsome : (ofText s).authority = some a := ha
  intro c hc
  rw [← toText_ofText s, toText, hsome, authorityText]
  simp [hc]

namespace Url
open AuthorityParts UrlParts
variable {s host : Text} {u : Url}

theorem isScheme_of_parse (h : parse s = .ok u) : ∀ n ∈ u.scheme, Grammar.isScheme n = true := by
  obtain ⟨hfits, -, -, hscheme, -⟩ := parse_eq_ok rfl h
  intro n hn
  exact ((Grammar.fits_eq_true.1 hfits).1 n (hscheme ▸ hn)).1

/-- No surrogate is in a path or a query that was parsed. -/
theorem isScalar_of_parse (h : parse s = .ok u) :
    u.path.isScalar = true ∧ ∀ q ∈ u.query, q.isScalar = true := by
  obtain ⟨hfits, -, -, -, -, -, hpath, hquery, -⟩ := parse_eq_ok rfl h
  obtain ⟨-, -, hpathfit, hqueryfit, -⟩ := Grammar.fits_eq_true.1 hfits
  rw [hpath, hquery]
  refine ⟨Grammar.isScalar_of_isEncoded (Grammar.isEncoded_mono hpathfit fun c _ hc => ?_),
    fun q hq => Grammar.isScalar_of_isEncoded (hqueryfit q hq)⟩
  rw [Grammar.isQueryChar, hc, Bool.true_or]

/-- The host of a text without line breaks and tabs, and the authority made of it with a port of
digits or none: no character that looks like a delimiter is new to it. -/
theorem standing_of_parse (h : parse s = .ok u) (hbreaks : Unbroken s) (hhost : host ∈ u.host) :
    Standing host ∧ ∀ p : Option Text, p.all (·.all CodePoint.isDigit) = true →
      checkLookalikes (bracketed host ++ portText p) = .ok () := by
  obtain ⟨parts, port, href, hparts, -, rfl⟩ := parse_eq_ok_iff.1 h
  obtain ⟨hcheck, hlook, rfl⟩ := (ofText_of_isReference rfl href).1 hparts
  obtain ⟨hne, heq⟩ := Option.ite_none_left_eq_some.1 hhost
  cases ha : (Components.ofText s).authority with
  | none =>
    rw [ha] at hne
    exact absurd rfl hne
  | some a =>
    have hwhole : Unbroken a := fun c hc => hbreaks c (Components.mem_of_mem_authority ha c hc)
    simp only [ha, Option.getD_some, unbroken_iff.1 hwhole] at hcheck hlook heq
    obtain rfl : (AuthorityParts.ofText a).host = host := Option.some.inj heq
    have hfits := ((Grammar.fits_eq_true.1 href).2.1 a ha).2
    have hfree := ((Components.separated_ofText s).authority a ha).1
    obtain ⟨hstanding, hsub⟩ := standing_of_isAuthority hfits hcheck hfree hwhole
    refine ⟨hstanding, fun p hp => checkLookalikes_of_mem hlook fun c hc => ?_⟩
    exact (mem_bracketed_portText hp hc).imp_left (hsub c)

end Url
end HttpUri
