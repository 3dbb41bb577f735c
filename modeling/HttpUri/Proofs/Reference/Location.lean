import HttpUri.Proofs.Authority.Parts
import HttpUri.Proofs.Ip.Characters
import HttpUri.Proofs.Reference.Segments

/-! Authorities: the cuts that are made are the only ones the grammar allows. -/
namespace HttpUri.Abnf
open scoped Computability

variable {s : Text}

theorem mem_ipLiteral : s ∈ ipLiteral ↔ ∃ t, Ip.isIpv6 t = true ∧
    s = .char '[' :: (t ++ [.char ']']) := by
  unfold ipLiteral
  rw [mem_sign_mul]
  constructor
  · intro h
    obtain ⟨u, hu, rfl⟩ := h
    obtain ⟨t, ht, rfl⟩ := mem_mul_sign.1 hu
    exact ⟨t, ht, rfl⟩
  · intro h
    obtain ⟨t, ht, rfl⟩ := h
    exact ⟨t ++ [.char ']'], mem_mul_sign.2 ⟨t, ht, rfl⟩, rfl⟩

theorem mem_optional_port : s ∈ optional (sign ':' * port) ↔
    ∃ p, s = AuthorityParts.portText p ∧ p.all (·.all CodePoint.isDigit) = true := by
  rw [mem_optional_sign (f := AuthorityParts.portText) rfl fun _ => rfl]
  simp only [Option.all_eq_true, mem_port, Option.mem_def]

theorem isIpv6_of_isHost {t : Text} (h : Grammar.isHost t = true) (hc : .char ':' ∈ t)
    (hb : .char ']' ∉ t) : Ip.isIpv6 t = true := by
  obtain ⟨u, hu, haddress⟩ := Grammar.isHost_iff.1 h
  rcases Grammar.unbracket?_eq_some.1 hu with rfl | ⟨rfl, -⟩
  · simp at hb
  · rwa [if_pos hc] at haddress

theorem isEncoded_of_isHost {t : Text} (h : Grammar.isHost t = true) (hc : .char ':' ∉ t)
    (hb : t.head? ≠ some (.char '[')) : Grammar.isEncoded Grammar.isNameChar t = true := by
  obtain ⟨u, hu, hname⟩ := Grammar.isHost_iff.1 h
  rcases Grammar.unbracket?_eq_some.1 hu with rfl | ⟨rfl, -⟩
  · exact absurd rfl hb
  · rwa [if_neg hc] at hname

private theorem literal_mem_location {t : Text} {p : Option Text} (ht : Ip.isIpv6 t = true)
    (hp : p.all (·.all CodePoint.isDigit) = true) :
    .char '[' :: (t ++ .char ']' :: AuthorityParts.portText p) ∈
      host * optional (sign ':' * port) := by
  have hhost : .char '[' :: (t ++ [.char ']']) ∈ host := .inl (mem_ipLiteral.2 ⟨t, ht, rfl⟩)
  rw [← AuthorityParts.literal_append_portText]
  exact Language.append_mem_mul hhost (mem_optional_port.2 ⟨p, rfl, hp⟩)

private theorem name_mem_location {t : Text} {p : Option Text} (ht : Grammar.isHost t = true)
    (hc : .char ':' ∉ t) (hb : t.head? ≠ some (.char '['))
    (hp : p.all (·.all CodePoint.isDigit) = true) :
    t ++ AuthorityParts.portText p ∈ host * optional (sign ':' * port) := by
  have hhost : t ∈ host := .inr (mem_regName.2 (isEncoded_of_isHost ht hc hb))
  exact Language.append_mem_mul hhost (mem_optional_port.2 ⟨p, rfl, hp⟩)

theorem mem_location_of_isLocation (h : Grammar.isLocation s = true) :
    s ∈ host * optional (sign ':' * port) := by
  obtain ⟨hport, hhost⟩ := Bool.and_eq_true_iff.1 h
  by_cases hb : s.head? = some (.char '[')
  · obtain ⟨r, rfl⟩ := List.head?_eq_some_iff.1 hb
    rw [if_pos hb, Bool.and_eq_true, decide_eq_true_eq] at hhost
    obtain ⟨hcolon, hhost⟩ := hhost
    rcases AuthorityParts.hostAndPort_bracket r with ⟨t, p, rfl, hclose, heq⟩ | heq
    · rw [heq] at hport hcolon hhost
      have haddress := isIpv6_of_isHost hhost hcolon hclose
      exact literal_mem_location haddress hport
    · rw [heq] at hcolon hhost
      change (.char ':') ∈ .char '[' :: r at hcolon
      obtain ⟨u, hu, haddress⟩ := Grammar.isHost_iff.1 hhost
      rcases Grammar.unbracket?_eq_some.1 hu with hr | ⟨-, hne, -⟩
      · have hsame : r = u ++ [.char ']'] := (List.cons.inj hr).2
        subst hsame
        have hin : .char ':' ∈ u := by simpa using hcolon
        rw [if_pos hin] at haddress
        exact literal_mem_location (p := none) haddress rfl
      · exact absurd rfl hne
  · rw [if_neg hb] at hhost
    obtain ⟨t, p, rfl, hc, heq⟩ := AuthorityParts.hostAndPort_of_head_ne hb
    rw [heq] at hport hhost
    exact name_mem_location hhost hc (Text.head?_ne_of_append hb) hport

theorem isLocation_cases (h : Grammar.isLocation s = true) :
    ∃ t p, p.all (·.all CodePoint.isDigit) = true ∧
      (Grammar.isEncoded Grammar.isNameChar t = true ∧ s = t ++ AuthorityParts.portText p ∨
        Ip.isIpv6 t = true ∧ s = .char '[' :: (t ++ .char ']' :: AuthorityParts.portText p)) := by
  obtain ⟨name, hname, rest, hrest, rfl⟩ := Language.mem_mul.1 (mem_location_of_isLocation h)
  obtain ⟨p, rfl, hp⟩ := mem_optional_port.1 hrest
  rcases hname with hliteral | hname
  · obtain ⟨t, hip, rfl⟩ := mem_ipLiteral.1 hliteral
    exact ⟨t, p, hp, .inr ⟨hip, by simp⟩⟩
  · exact ⟨name, p, hp, .inl ⟨mem_regName.1 hname, rfl⟩⟩

theorem isLocation_literal {t : Text} {p : Option Text} (ht : Ip.isIpv6 t = true)
    (hclose : .char ']' ∉ t) (hp : p.all (·.all CodePoint.isDigit) = true) :
    Grammar.isLocation (.char '[' :: (t ++ .char ']' :: AuthorityParts.portText p)) = true := by
  have hcolon : .char ':' ∈ t := Ip.colon_mem_of_isIpv6 ht
  have hhost : Grammar.isHost t = true := by
    have hbare : Grammar.unbracket? t = some t := Grammar.unbracket?_eq_some.2
      (.inr ⟨rfl, Ip.head?_of_isIpv6 ht rfl, fun hlast => hclose (List.mem_of_getLast? hlast)⟩)
    exact Grammar.isHost_iff.2 ⟨t, hbare, by rw [if_pos hcolon, ht]⟩
  rw [Grammar.isLocation, AuthorityParts.hostAndPort_literal p hclose, hp, List.head?_cons,
    if_pos rfl, hhost, decide_eq_true hcolon]
  rfl

theorem isLocation_name {t : Text} {p : Option Text}
    (ht : Grammar.isEncoded Grammar.isNameChar t = true)
    (hp : p.all (·.all CodePoint.isDigit) = true) :
    Grammar.isLocation (t ++ AuthorityParts.portText p) = true := by
  have hcolon : .char ':' ∉ t := Grammar.not_mem_isEncoded ht (by decide)
  have hopen : .char '[' ∉ t := Grammar.not_mem_isEncoded ht (by decide)
  have hclose : .char ']' ∉ t := Grammar.not_mem_isEncoded ht (by decide)
  have hhost : Grammar.isHost t = true := by
    have hbare := Grammar.unbracket?_of_not_mem hopen hclose
    exact Grammar.isHost_iff.2 ⟨t, hbare, by rw [if_neg hcolon, ht]⟩
  have hhead : (t ++ AuthorityParts.portText p).head? ≠ some (.char '[') := by
    intro h
    have hport : .char '[' ∉ AuthorityParts.portText p :=
      AuthorityParts.not_mem_portText hp rfl (by decide)
    rcases List.mem_append.1 (List.mem_of_head? h) with hm | hm
    · exact hopen hm
    · exact hport hm
  have hfirst : t.head? ≠ some (.char '[') := fun h => hopen (List.mem_of_head? h)
  rw [Grammar.isLocation, AuthorityParts.hostAndPort_name p hfirst hcolon, hp, if_neg hhead, hhost]
  rfl

theorem isLocation_of_mem (h : s ∈ host * optional (sign ':' * port))
    (hs : ¬ [.char '[', .char '%'].Sublist s) : Grammar.isLocation s = true ∧ .char '@' ∉ s := by
  obtain ⟨t, ht, u, hu, rfl⟩ := Language.mem_mul.1 h
  obtain ⟨p, rfl, hp⟩ := mem_optional_port.1 hu
  have hport : .char '@' ∉ AuthorityParts.portText p :=
    AuthorityParts.not_mem_portText hp rfl (by decide)
  rcases ht with ht | ht
  · obtain ⟨address, hip, rfl⟩ := mem_ipLiteral.1 ht
    obtain ⟨name, zone, rfl, hchars, -, hzone⟩ := Ip.mem_isIpv6 hip
    obtain rfl : zone = [] := by
      rcases hzone with rfl | ⟨z, rfl⟩
      · rfl
      · refine absurd (.cons_cons _ (List.singleton_sublist.2 ?_)) hs
        simp
    have hfree : ∀ c, Ip.isAddressChar c = false → c ∉ name :=
      fun c => Text.not_mem_of_forall hchars
    rw [List.append_nil] at hip
    rw [List.append_nil, AuthorityParts.literal_append_portText]
    exact ⟨isLocation_literal hip (hfree _ rfl) hp,
      AuthorityParts.not_mem_literal (hfree _ rfl) hp rfl (by decide)⟩
  · have hname := mem_regName.1 ht
    refine ⟨isLocation_name hname hp, ?_⟩
    rw [List.mem_append, not_or]
    exact ⟨Grammar.not_mem_isEncoded hname (by decide), hport⟩

/-- Whatever passes the check has a derivation, also with a zone in the brackets. -/
theorem mem_authority_of_isAuthority (h : Grammar.isAuthority s = true) : s ∈ authority := by
  rcases Grammar.isAuthority_cases h with ⟨hlocation, -⟩ | ⟨v, r, rfl, hinfo, hlocation, -⟩
  · exact Language.append_mem_mul (mem_optional.2 (.inl rfl)) (mem_location_of_isLocation hlocation)
  · have hv : v ++ [.char '@'] ∈ optional (userinfo * sign '@') :=
      mem_optional.2 (.inr (mem_mul_sign.2 ⟨v, mem_userinfo.2 hinfo, rfl⟩))
    have hmem := Language.append_mem_mul hv (mem_location_of_isLocation hlocation)
    rwa [List.append_assoc] at hmem

/-- The user info ends at the last at sign, for no host and no port hold one. -/
theorem mem_authority (hs : ¬ [.char '[', .char '%'].Sublist s) :
    s ∈ authority ↔ Grammar.isAuthority s = true := by
  refine ⟨fun h => ?_, mem_authority_of_isAuthority⟩
  obtain ⟨u, hu, r, hr, rfl⟩ := Language.mem_mul.1 h
  have hsub : ¬ [.char '[', .char '%'].Sublist r :=
    fun hb => hs (hb.trans (List.sublist_append_right u r))
  obtain ⟨hloc, hat⟩ := isLocation_of_mem hr hsub
  rcases mem_optional.1 hu with rfl | hu
  · rw [List.nil_append, Grammar.isAuthority_of_not_mem (Text.cutLast_eq_none.2 hat), hloc]
  · obtain ⟨v, hv, rfl⟩ := mem_mul_sign.1 hu
    have hcut : Text.cutLast '@' (v ++ [.char '@'] ++ r) = some (v, r) :=
      Text.cutLast_eq_some.2 ⟨by rw [List.append_assoc]; rfl, hat⟩
    rw [Grammar.isAuthority_of_mem hcut, mem_userinfo.1 hv, hloc]
    rfl

end HttpUri.Abnf
