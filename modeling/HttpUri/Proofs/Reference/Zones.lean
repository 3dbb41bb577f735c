import HttpUri.Proofs.Percent.Encoded
import HttpUri.Proofs.Reference.Location

/-! Where a reference can hold characters that the grammar does not name: in the zone of the address
of its host, and nowhere else. -/
namespace HttpUri.Grammar
open Components
variable {p q : CodePoint → Bool} {c : CodePoint} {s : Text}

/-- A character that no component may hold and that delimits none. -/
def isForeign (c : CodePoint) : Bool := !(isQueryChar c || c = '%' || c = '#' || c = '[' || c = ']')

/-- Characters of a class stand in the zone of an address in brackets, if anywhere. -/
def OnlyInZone (p : CodePoint → Bool) (s : Text) : Prop :=
  (∀ c ∈ s, p c = false) ∨ ∃ before address zone after : Text,
    s = before ++ .char '[' :: (address ++ .char '%' :: zone) ++ .char ']' :: after ∧
      Ip.isIpv6 (address ++ .char '%' :: zone) = true ∧
        (∀ c ∈ before, p c = false) ∧ (∀ c ∈ address, p c = false) ∧ ∀ c ∈ after, p c = false

theorem OnlyInZone.mono (h : OnlyInZone q s) (hpq : ∀ c, p c = true → q c = true) :
    OnlyInZone p s := by
  have hfree : ∀ t : Text, (∀ c ∈ t, q c = false) → ∀ c ∈ t, p c = false := by
    intro t ht c hc
    refine Bool.eq_false_iff.2 fun hp => ?_
    exact Bool.false_ne_true ((ht c hc).symm.trans (hpq c hp))
  rcases h with hs | ⟨before, address, zone, after, hs, hip, hbefore, haddress, hafter⟩
  · exact .inl (hfree s hs)
  · exact .inr ⟨before, address, zone, after, hs, hip, hfree before hbefore,
      hfree address haddress, hfree after hafter⟩

theorem OnlyInZone.append {x y : Text} (h : OnlyInZone p s) (hx : ∀ c ∈ x, p c = false)
    (hy : ∀ c ∈ y, p c = false) : OnlyInZone p (x ++ s ++ y) := by
  rcases h with hs | ⟨before, address, zone, after, rfl, hip, hbefore, haddress, hafter⟩
  · exact .inl (List.forall_mem_append.2 ⟨List.forall_mem_append.2 ⟨hx, hs⟩, hy⟩)
  · have hleft := List.forall_mem_append.2 ⟨hx, hbefore⟩
    have hright := List.forall_mem_append.2 ⟨hafter, hy⟩
    refine .inr ⟨x ++ before, address, zone, after ++ y, ?_, hip, hleft, haddress, hright⟩
    simp only [List.append_assoc, List.cons_append]

theorem isForeign_eq_false (h : c = '%' ∨ isQueryChar c = true) : isForeign c = false := by
  rcases h with rfl | h
  · rfl
  · rw [isForeign, h]
    rfl

theorem isQueryChar_of_isPathChar (h : isPathChar c = true) : isQueryChar c = true :=
  Bool.or_eq_true_iff.2 (.inl h)

theorem isPathChar_of_isUserInfoChar (h : isUserInfoChar c = true) : isPathChar c = true :=
  Bool.or_eq_true_iff.2 (.inl (Bool.or_eq_true_iff.2 (.inl h)))

theorem isUserInfoChar_of_isNameChar (h : isNameChar c = true) : isUserInfoChar c = true :=
  Bool.or_eq_true_iff.2 (.inl h)

theorem isForeign_of_mem_isEncoded (h : isEncoded p s = true)
    (hp : ∀ c, p c = true → isQueryChar c = true) : ∀ c ∈ s, isForeign c = false := by
  intro c hc
  rcases mem_isEncoded h hc with hpercent | hhex | hchar
  · exact isForeign_eq_false (.inl hpercent)
  · exact isForeign_eq_false (.inr (isQueryChar_of_isPathChar (isPathChar_of_isHex hhex)))
  · exact isForeign_eq_false (.inr (hp c hchar))

theorem isForeign_of_isAddressChar (h : Ip.isAddressChar c = true) : isForeign c = false := by
  simp only [Ip.isAddressChar, Bool.or_eq_true, decide_eq_true_eq] at h
  rcases h with (hhex | rfl) | rfl
  · exact isForeign_eq_false (.inr (isQueryChar_of_isPathChar (isPathChar_of_isHex hhex)))
  all_goals rfl

theorem isForeign_of_isDigit (h : c.isDigit = true) : isForeign c = false := by
  have hhex : Text.isHex c = true := Ip.isHex_of_isDigit h
  exact isForeign_eq_false (.inr (isQueryChar_of_isPathChar (isPathChar_of_isHex hhex)))

theorem onlyInZone_ipLiteral (h : s ∈ Abnf.ipLiteral) : OnlyInZone isForeign s := by
  obtain ⟨t, hip, rfl⟩ := Abnf.mem_ipLiteral.1 h
  obtain ⟨address, zone, rfl, hchars, -, hzone⟩ := Ip.mem_isIpv6 hip
  have haddress : ∀ c ∈ address, isForeign c = false := fun c hc =>
    isForeign_of_isAddressChar (hchars c hc)
  have hnone : ∀ c ∈ ([] : Text), isForeign c = false := List.forall_mem_nil _
  rcases hzone with rfl | ⟨name, rfl⟩
  · rw [List.append_nil]
    have hclose : ∀ c ∈ [.char ']'], isForeign c = false := List.forall_mem_singleton.2 rfl
    exact .inl (List.forall_mem_cons.2 ⟨rfl, List.forall_mem_append.2 ⟨haddress, hclose⟩⟩)
  · exact .inr ⟨[], address, name, [], rfl, hip, hnone, haddress, hnone⟩

theorem onlyInZone_authority (h : s ∈ Abnf.authority) : OnlyInZone isForeign s := by
  obtain ⟨user, huser, location, hlocation, rfl⟩ := Language.mem_mul.1 h
  obtain ⟨host, hhost, port, hport, rfl⟩ := Language.mem_mul.1 hlocation
  obtain ⟨digits, rfl, hdigits⟩ := Abnf.mem_optional_port.1 hport
  have hbefore : ∀ c ∈ user, isForeign c = false := by
    rcases Abnf.mem_optional.1 huser with rfl | huser
    · exact List.forall_mem_nil _
    · obtain ⟨info, hinfo, rfl⟩ := Abnf.mem_mul_sign.1 huser
      have hencoded := isForeign_of_mem_isEncoded (Abnf.mem_userinfo.1 hinfo) fun c hc =>
        isQueryChar_of_isPathChar (isPathChar_of_isUserInfoChar hc)
      exact List.forall_mem_append.2 ⟨hencoded, List.forall_mem_singleton.2 rfl⟩
  have hzone : OnlyInZone isForeign host := by
    rcases hhost with hliteral | hname
    · exact onlyInZone_ipLiteral hliteral
    · exact .inl (isForeign_of_mem_isEncoded (Abnf.mem_regName.1 hname) fun c hc =>
        isQueryChar_of_isPathChar (isPathChar_of_isUserInfoChar (isUserInfoChar_of_isNameChar hc)))
  have hafter : ∀ c ∈ AuthorityParts.portText digits, isForeign c = false := by
    cases digits with
    | none => exact List.forall_mem_nil _
    | some d =>
      have hall : ∀ c ∈ d, isForeign c = false := fun c hc =>
        isForeign_of_isDigit (List.all_eq_true.1 hdigits c hc)
      exact List.forall_mem_cons.2 ⟨rfl, hall⟩
  rw [← List.append_assoc]
  exact hzone.append hbefore hafter

theorem isForeign_of_fits {c : Components} (h : fits c = true) :
    (∀ d ∈ schemeText c.scheme, isForeign d = false) ∧
      ∀ d ∈ c.path ++ (queryText c.query ++ fragmentText c.fragment), isForeign d = false := by
  obtain ⟨hscheme, -, hpath, hquery, hfragment⟩ := fits_eq_true.1 h
  constructor
  · cases hn : c.scheme with
    | none => exact List.forall_mem_nil _
    | some n =>
      have hname : ∀ d ∈ n, isForeign d = false := fun d hd => isForeign_eq_false
        (.inr (isQueryChar_of_isPathChar (isPathChar_of_isScheme (hscheme n hn).1 hd)))
      exact List.forall_mem_append.2 ⟨hname, List.forall_mem_singleton.2 rfl⟩
  · have hp := isForeign_of_mem_isEncoded hpath fun d hd => isQueryChar_of_isPathChar hd
    have hq : ∀ d ∈ queryText c.query, isForeign d = false := by
      cases hq : c.query with
      | none => exact List.forall_mem_nil _
      | some q =>
        exact List.forall_mem_cons.2 ⟨rfl, isForeign_of_mem_isEncoded (hquery q hq) fun _ => id⟩
    have hf : ∀ d ∈ fragmentText c.fragment, isForeign d = false := by
      cases hf : c.fragment with
      | none => exact List.forall_mem_nil _
      | some f =>
        exact List.forall_mem_cons.2 ⟨rfl, isForeign_of_mem_isEncoded (hfragment f hf) fun _ => id⟩
    exact List.forall_mem_append.2 ⟨hp, List.forall_mem_append.2 ⟨hq, hf⟩⟩

/-- A foreign character of a reference stands in its authority, and there in a zone. -/
theorem authority_of_isForeign (h : isReference s = true) (hc : c ∈ s) (hf : isForeign c = true) :
    ∃ a ∈ (ofText s).authority, c ∈ a ∧ OnlyInZone isForeign a := by
  obtain ⟨hbefore, hafter⟩ := isForeign_of_fits h
  have hauthority := (fits_eq_true.1 h).2.1
  have htext := toText_ofText s
  unfold toText at htext
  rw [← htext, List.append_assoc, List.append_assoc, List.append_assoc, List.mem_append,
    List.mem_append] at hc
  rcases hc with hc | hc | hc
  · exact absurd ((hbefore c hc).symm.trans hf) Bool.false_ne_true
  · cases ha : (ofText s).authority with
    | none =>
      rw [ha] at hc
      exact absurd hc List.not_mem_nil
    | some a =>
      rw [ha, authorityText, List.mem_cons, List.mem_cons] at hc
      rcases hc with rfl | rfl | hc
      · exact absurd hf (by decide)
      · exact absurd hf (by decide)
      · have hzone := onlyInZone_authority (Abnf.mem_authority_of_isAuthority (hauthority a ha).2)
        exact ⟨a, rfl, hc, hzone⟩
  · exact absurd ((hafter c hc).symm.trans hf) Bool.false_ne_true

theorem onlyInZone_of_isReference (h : isReference s = true) : OnlyInZone isForeign s := by
  obtain ⟨hbefore, hafter⟩ := isForeign_of_fits h
  have hauthority := (fits_eq_true.1 h).2.1
  have hsplit : s = schemeText (ofText s).scheme ++ authorityText (ofText s).authority ++
      ((ofText s).path ++ (queryText (ofText s).query ++ fragmentText (ofText s).fragment)) := by
    refine (toText_ofText s).symm.trans ?_
    simp only [toText, List.append_assoc]
  rw [hsplit]
  cases ha : (ofText s).authority with
  | none =>
    rw [authorityText, List.append_nil]
    exact .inl (List.forall_mem_append.2 ⟨hbefore, hafter⟩)
  | some a =>
    have hzone := onlyInZone_authority (Abnf.mem_authority_of_isAuthority (hauthority a ha).2)
    have hslashes : ∀ d ∈ [.char '/', .char '/'], isForeign d = false :=
      List.forall_mem_cons.2 ⟨rfl, List.forall_mem_singleton.2 rfl⟩
    have hfront := List.forall_mem_append.2 ⟨hbefore, hslashes⟩
    have hau : schemeText (ofText s).scheme ++ authorityText (some a) =
        schemeText (ofText s).scheme ++ [.char '/', .char '/'] ++ a := by simp [authorityText]
    rw [hau]
    exact hzone.append hfront hafter

end HttpUri.Grammar
