import HttpUri.Proofs.Authority.Port
import HttpUri.Proofs.Ip.Characters
import HttpUri.Proofs.Url.Parse

/-! Authorities composed of a host that passes its check and a port. -/
namespace HttpUri

namespace Grammar
variable {s t : Text}

theorem bracketed_of_isHost (h : isHost s = true) : ∃ name, unbracket? s = some name ∧
    ((Ip.isIpv6 name = true ∧ bracketed s = .char '[' :: (name ++ [.char ']'])) ∨
      (isEncoded isNameChar name = true ∧ .char ':' ∉ name ∧
        (s = name ∧ bracketed s = name ∨ bracketed s = .char '[' :: (name ++ [.char ']'])))) := by
  obtain ⟨name, hname, hcheck⟩ := isHost_iff.1 h
  refine ⟨name, hname, ?_⟩
  have hbracket := unbracket?_eq_some.1 hname
  by_cases hc : .char ':' ∈ name
  · rw [if_pos hc] at hcheck
    refine .inl ⟨hcheck, ?_⟩
    rcases hbracket with rfl | ⟨rfl, hhead, -⟩
    · exact if_neg (by simp)
    · exact if_pos ⟨hc, hhead⟩
  · rw [if_neg hc] at hcheck
    refine .inr ⟨hcheck, hc, ?_⟩
    rcases hbracket with rfl | ⟨rfl, -, -⟩
    · exact .inr (if_neg (by simp))
    · exact .inl ⟨rfl, if_neg (by simp [hc])⟩

end Grammar

/-- An address by itself is put in brackets: no bracket can begin it. -/
theorem bracketed_of_isIpv6 {name : Text} (hip : Ip.isIpv6 name = true) :
    bracketed name = .char '[' :: (name ++ [.char ']']) :=
  if_pos ⟨Ip.colon_mem_of_isIpv6 hip, Ip.head?_of_isIpv6 hip rfl⟩

theorem mem_bracketed {host : Text} {c : CodePoint} (h : c ∈ bracketed host) :
    c ∈ host ∨ c = '[' ∨ c = ']' := by
  unfold bracketed at h
  split at h
  · simp only [List.cons_append, List.mem_cons, List.mem_append, List.not_mem_nil, or_false] at h
    rcases h with rfl | h | rfl
    · exact .inr (.inl rfl)
    · exact .inl h
    · exact .inr (.inr rfl)
  · exact .inl h

theorem bracketed_ne_nil {host : Text} (h : host ≠ []) : bracketed host ≠ [] := by
  unfold bracketed
  split
  · exact List.cons_ne_nil _ _
  · exact h

namespace AuthorityParts
variable {s : Text}

theorem ofText_of_not_mem (h : .char '@' ∉ s) :
    ofText s = ⟨none, (hostAndPort s).1, (hostAndPort s).2⟩ := by
  unfold ofText
  rw [Text.cutLast_eq_none.2 h]

theorem ofText_append {info : Text} (h : .char '@' ∉ s) :
    ofText (info ++ .char '@' :: s) = ⟨some info, (hostAndPort s).1, (hostAndPort s).2⟩ := by
  unfold ofText
  rw [Text.cutLast_eq_some.2 ⟨rfl, h⟩]

end AuthorityParts

namespace UrlParts
variable {x y : Text}

theorem checkBrackets_bracketed (hx : .char ']' ∉ x)
    (hat : .char '@' ∉ .char '[' :: (x ++ .char ']' :: y)) :
    checkBrackets (.char '[' :: (x ++ .char ']' :: y)) = .ok () ↔
      (y = [] ∨ y.head? = some (.char ':')) ∧
      (if x.head? = some (.char 'v') then isFutureAddress x else Ip.isIpv6 x) = true := by
  have hopen : (.char '[' ∈ .char '[' :: (x ++ .char ']' :: y)) := List.mem_cons_self
  have hclose : (.char ']' ∈ .char '[' :: (x ++ .char ']' :: y)) := by simp
  have hafter := Grammar.afterUserInfo_of_not_mem hat
  have hcut : Text.cutFirst '[' (.char '[' :: (x ++ .char ']' :: y)) =
      some ([], x ++ .char ']' :: y) :=
    Text.cutFirst_eq_some.2 ⟨rfl, List.not_mem_nil⟩
  have hor : cutOr ']' (x ++ .char ']' :: y) = (x, y) := by
    unfold cutOr
    rw [Text.cutFirst_eq_some.2 ⟨rfl, hx⟩]
    rfl
  unfold checkBrackets
  rw [decide_eq_true hopen, decide_eq_true hclose]
  simp only [hafter, hcut, hor, true_and]
  by_cases hy : y = [] ∨ y.head? = some (.char ':')
  · simp [hy, Except.bind]
  · simp [hy, Except.bind]

theorem withoutBreaks_of_isAddressChar {s : Text} (h : ∀ c ∈ s, Ip.isAddressChar c = true) :
    withoutBreaks s = s :=
  withoutBreaks_of_not_mem ⟨Text.not_mem_of_forall h rfl, Text.not_mem_of_forall h rfl,
    Text.not_mem_of_forall h rfl⟩

end UrlParts

namespace AuthorityParts
open UrlParts
variable {host name : Text} {p : Option Text}

theorem withoutBreaks_portText (hp : p.all (·.all CodePoint.isDigit) = true) :
    withoutBreaks (portText p) = portText p := by
  apply withoutBreaks_of_not_mem
  refine ⟨?_, ?_, ?_⟩ <;> exact not_mem_portText hp rfl (by decide)

theorem unbroken_portText (hp : p.all (·.all CodePoint.isDigit) = true) : Unbroken (portText p) :=
  unbroken_iff.2 (withoutBreaks_portText hp)

theorem unbroken_bracketed (h : Unbroken host) : Unbroken (bracketed host) := by
  unfold bracketed
  split
  · exact .cons rfl (h.append (.cons rfl .nil))
  · exact h

theorem isHost_of_isAuthority {s : Text} (h : Grammar.isAuthority s = true) :
    Grammar.isHost (ofText s).host = true := by
  have hhost := (Bool.and_eq_true_iff.1 h).2
  split at hhost
  · exact (Bool.and_eq_true_iff.1 hhost).2
  · exact hhost

/-- The user info of an authority is not one that a bracket begins. -/
theorem not_mem_of_bracket {r : Text} (ha : Grammar.isAuthority (.char '[' :: r) = true) :
    .char '@' ∉ .char '[' :: r := by
  rcases Grammar.isAuthority_cases ha with ⟨-, hat⟩ | ⟨u, rest, heq, hinfo, -⟩
  · exact hat
  · cases u with
    | nil => exact absurd (List.cons.inj heq).1 (by decide)
    | cons c u =>
      obtain ⟨rfl, -⟩ := List.cons.inj heq
      exact absurd List.mem_cons_self (Grammar.not_mem_isEncoded hinfo (by decide))

theorem not_mem_of_digits (hat : .char '@' ∉ .char '[' :: (name ++ .char ']' :: portText p))
    (hcheck : checkBrackets (.char '[' :: (name ++ .char ']' :: portText p)) = .ok ())
    (hdigits : ∀ d ∈ (ofText (.char '[' :: (name ++ .char ']' :: portText p))).port,
      Numeral.isDigits d = true) : .char ']' ∉ name := by
  intro hclose
  obtain ⟨x, y, rfl, hx⟩ := List.eq_append_cons_of_mem hclose
  have hsplit : .char '[' :: (x ++ .char ']' :: y ++ .char ']' :: portText p) =
      .char '[' :: (x ++ .char ']' :: (y ++ .char ']' :: portText p)) := by simp
  rw [hsplit] at hat hcheck hdigits
  rcases ((checkBrackets_bracketed hx hat).1 hcheck).1 with hnil | hcolon
  · simp at hnil
  · cases y with
    | nil => exact absurd (Option.some.inj hcolon) (by decide)
    | cons d y =>
      have heq : d = ':' := Option.some.inj hcolon
      subst heq
      have hcut : hostAndPort (.char '[' ::
          (x ++ .char ']' :: (.char ':' :: y ++ .char ']' :: portText p))) =
          (x, some (y ++ .char ']' :: portText p)) :=
        hostAndPort_literal (some (y ++ .char ']' :: portText p)) hx
      rw [ofText_of_not_mem hat, hcut] at hdigits
      have hbracket := List.all_eq_true.1 (hdigits _ rfl) ']' (by simp)
      exact absurd hbracket (by decide)

/-- An address that lost its line breaks holds no closing bracket, or the URL would not have been
parsed. -/
theorem ofText_literal (hat : .char '@' ∉ .char '[' :: (name ++ .char ']' :: portText p))
    (hcheck : checkBrackets (.char '[' :: (name ++ .char ']' :: portText p)) = .ok ())
    (hdigits : ∀ d ∈ (ofText (.char '[' :: (name ++ .char ']' :: portText p))).port,
      Numeral.isDigits d = true) :
    ofText (.char '[' :: (name ++ .char ']' :: portText p)) = ⟨none, name, p⟩ := by
  have hclose : .char ']' ∉ name := not_mem_of_digits hat hcheck hdigits
  rw [ofText_of_not_mem hat, hostAndPort_literal p hclose]

theorem withoutBreaks_literal (t : Text) (hp : p.all (·.all CodePoint.isDigit) = true) :
    withoutBreaks (.char '[' :: (t ++ .char ']' :: portText p)) =
      .char '[' :: (withoutBreaks t ++ .char ']' :: portText p) := by
  change (.char '[') :: withoutBreaks (t ++ .char ']' :: portText p) = _
  rw [withoutBreaks_append]
  change (.char '[') :: (withoutBreaks t ++ .char ']' :: withoutBreaks (portText p)) = _
  rw [withoutBreaks_portText hp]

private theorem ofText_address (hip : Ip.isIpv6 name = true)
    (hp : p.all (·.all CodePoint.isDigit) = true)
    (ha : Grammar.isAuthority (.char '[' :: (name ++ .char ']' :: portText p)) = true)
    (hcheck : checkBrackets
      (withoutBreaks (.char '[' :: (name ++ .char ']' :: portText p))) = .ok ())
    (hdigits : ∀ d ∈ (ofText (withoutBreaks (.char '[' :: (name ++ .char ']' :: portText p)))).port,
      Numeral.isDigits d = true) :
    withoutBreaks name ≠ [] ∧
      (Ip.isIpv6 name = true ∧ .char '%' ∈ name ∨ withoutBreaks name = name) ∧
      ofText (withoutBreaks (.char '[' :: (name ++ .char ']' :: portText p))) =
        ⟨none, withoutBreaks name, p⟩ := by
  have hbreaks := withoutBreaks_literal name hp
  have hat := fun hm => not_mem_of_bracket ha (mem_withoutBreaks.1 hm).1
  obtain ⟨address, zone, rfl, hchars, hcolon, hzone⟩ := Ip.mem_isIpv6 hip
  have hmem : .char ':' ∈ withoutBreaks (address ++ zone) :=
    mem_withoutBreaks.2 ⟨List.mem_append_left zone hcolon, rfl⟩
  rw [hbreaks] at hat hcheck hdigits ⊢
  refine ⟨List.ne_nil_of_mem hmem, ?_, ofText_literal hat hcheck hdigits⟩
  rcases hzone with rfl | ⟨z, rfl⟩
  · rw [List.append_nil]
    exact .inr (withoutBreaks_of_isAddressChar hchars)
  · exact .inl ⟨hip, by simp⟩

private theorem ofText_name (hreg : Grammar.isEncoded Grammar.isNameChar name = true)
    (hp : p.all (·.all CodePoint.isDigit) = true) :
    withoutBreaks name = name ∧
      ofText (withoutBreaks (name ++ portText p)) = ⟨none, name, p⟩ := by
  have hname : withoutBreaks name = name := withoutBreaks_isEncoded (by decide) hreg
  have hopen : name.head? ≠ some (.char '[') := fun h =>
    Grammar.not_mem_isEncoded hreg (by decide) (List.mem_of_head? h)
  have hcolon : .char ':' ∉ name := Grammar.not_mem_isEncoded hreg (by decide)
  have hat : .char '@' ∉ name ++ portText p := by
    rw [List.mem_append, not_or]
    exact ⟨Grammar.not_mem_isEncoded hreg (by decide), not_mem_portText hp rfl (by decide)⟩
  refine ⟨hname, ?_⟩
  rw [withoutBreaks_append, hname, withoutBreaks_portText hp, ofText_of_not_mem hat,
    hostAndPort_name p hopen hcolon]

theorem colon_mem_of_isAuthority (hclose : .char ']' ∉ name)
    (ha : Grammar.isAuthority (.char '[' :: (name ++ .char ']' :: portText p)) = true) :
    .char ':' ∈ name := by
  have hat := Text.cutLast_eq_none.2 (not_mem_of_bracket ha)
  rw [Grammar.isAuthority_of_not_mem hat, Grammar.isLocation, hostAndPort_literal p hclose,
    List.head?_cons, if_pos rfl, Bool.and_eq_true, Bool.and_eq_true] at ha
  exact of_decide_eq_true ha.2.1

/-- Of the hosts that pass their check, those that make up an authority are an address, in brackets
there, or a name that has none. -/
theorem bracketed_of_isAuthority (hhost : Grammar.isHost host = true)
    (ha : Grammar.isAuthority (bracketed host ++ portText p) = true) :
    ∃ name, Grammar.unbracket? host = some name ∧
      ((Ip.isIpv6 name = true ∧
          bracketed host ++ portText p = .char '[' :: (name ++ .char ']' :: portText p)) ∨
        (Grammar.isEncoded Grammar.isNameChar name = true ∧ host = name ∧
          bracketed host = name)) := by
  obtain ⟨name, hname, hcases⟩ := Grammar.bracketed_of_isHost hhost
  refine ⟨name, hname, ?_⟩
  rcases hcases with ⟨hip, heq⟩ | ⟨hreg, hc, hcase | heq⟩
  · exact .inl ⟨hip, by rw [heq, literal_append_portText]⟩
  · exact .inr ⟨hreg, hcase⟩
  · rw [heq, literal_append_portText] at ha
    have hclose : .char ']' ∉ name := Grammar.not_mem_isEncoded hreg (by decide)
    exact absurd (colon_mem_of_isAuthority hclose ha) hc

/-- The authority composed of a host and a port reads as these, line breaks in a zone left out. -/
theorem ofText_composed (hne : host ≠ []) (hhost : Grammar.isHost host = true)
    (hp : p.all (·.all CodePoint.isDigit) = true)
    (ha : Grammar.isAuthority (bracketed host ++ portText p) = true)
    (hcheck : checkBrackets (withoutBreaks (bracketed host ++ portText p)) = .ok ())
    (hdigits : ∀ d ∈ (ofText (withoutBreaks (bracketed host ++ portText p))).port,
      Numeral.isDigits d = true) :
    ∃ name, Grammar.unbracket? host = some name ∧ withoutBreaks name ≠ [] ∧
      (Ip.isIpv6 name = true ∧ .char '%' ∈ name ∨ withoutBreaks name = name) ∧
        ofText (withoutBreaks (bracketed host ++ portText p)) = ⟨none, withoutBreaks name, p⟩ := by
  obtain ⟨name, hname, ⟨hip, heq⟩ | ⟨hreg, rfl, heq⟩⟩ := bracketed_of_isAuthority hhost ha
  · refine ⟨name, hname, ?_⟩
    rw [heq] at ha hcheck hdigits ⊢
    exact ofText_address hip hp ha hcheck hdigits
  · obtain ⟨hbreaks, hparts⟩ := ofText_name hreg hp
    rw [heq]
    refine ⟨host, hname, ?_, .inr hbreaks, ?_⟩
    · rw [hbreaks]
      exact hne
    · rw [hbreaks]
      exact hparts

end AuthorityParts

end HttpUri
