import HttpUri.Proofs.Reference.Encoded
import HttpUri.Proofs.Reference.Separation

/-! What is read as user info, host and port of an authority, and which hosts pass the check. -/
namespace HttpUri

namespace AuthorityParts

def portText : Option Text → Text
  | some port => .char ':' :: port
  | none => []

theorem literal_append_portText (t : Text) (p : Option Text) :
    .char '[' :: (t ++ [.char ']']) ++ portText p =
      .char '[' :: (t ++ .char ']' :: portText p) := by
  simp

theorem not_mem_portText {c : CodePoint} {p : Option Text}
    (hp : p.all (·.all CodePoint.isDigit) = true) (hc : c.isDigit = false) (hne : c ≠ ':') :
    c ∉ portText p := by
  have hdigits : ∀ t ∈ p, c ∉ t := by
    intro t ht
    have hall := (Option.all_eq_true _ _).1 hp t ht
    exact Text.not_mem_of_forall (List.all_eq_true.1 hall) hc
  exact Text.not_mem_signed rfl (fun _ => rfl) hne hdigits

theorem not_mem_literal {c : CodePoint} {t : Text} {p : Option Text} (ht : c ∉ t)
    (hp : p.all (·.all CodePoint.isDigit) = true) (hc : c.isDigit = false)
    (hne : c ≠ '[' ∧ c ≠ ']' ∧ c ≠ ':') : c ∉ .char '[' :: (t ++ .char ']' :: portText p) := by
  simp only [List.mem_cons, List.mem_append, not_or]
  exact ⟨hne.1, ht, hne.2.1, not_mem_portText hp hc hne.2.2⟩

theorem free_portText {p : Option Text} (hp : p.all (·.all CodePoint.isDigit) = true) :
    ∀ d ∈ portText p, Components.endsAuthority d = false :=
  Components.endsAuthority_eq_false ⟨not_mem_portText hp rfl (by decide),
    not_mem_portText hp rfl (by decide), not_mem_portText hp rfl (by decide)⟩

theorem hostAndPort_name {host : Text} (port : Option Text) (hb : host.head? ≠ some (.char '['))
    (hc : .char ':' ∉ host) : hostAndPort (host ++ portText port) = (host, port) := by
  have hcut : Text.cutFirst ':' (host ++ portText port) = port.map fun p => (host, p) := by
    cases port with
    | none => exact Text.cutFirst_eq_none.2 (by simpa [portText] using hc)
    | some p => exact Text.cutFirst_eq_some.2 ⟨rfl, hc⟩
  unfold hostAndPort
  split
  · next rest hs =>
    exfalso
    cases host with
    | nil =>
      cases port with
      | none => exact nomatch hs
      | some p => exact absurd (List.cons.inj hs).1 (by decide)
    | cons c host =>
      obtain ⟨rfl, -⟩ := List.cons.inj hs
      exact hb rfl
  · rw [hcut]
    cases port with
    | none => simp [portText]
    | some p => rfl

theorem hostAndPort_literal {address : Text} (port : Option Text) (h : .char ']' ∉ address) :
    hostAndPort (.char '[' :: (address ++ .char ']' :: portText port)) = (address, port) := by
  have hcut : Text.cutFirst ']' (address ++ .char ']' :: portText port) =
      some (address, portText port) := Text.cutFirst_eq_some.2 ⟨rfl, h⟩
  simp only [hostAndPort, hcut]
  cases port <;> rfl

/-- Behind a bracket: an address and a port, or a host that keeps its brackets. -/
theorem hostAndPort_bracket (r : Text) :
    (∃ t p, r = t ++ .char ']' :: portText p ∧ .char ']' ∉ t ∧
      hostAndPort (.char '[' :: r) = (t, p)) ∨
      hostAndPort (.char '[' :: r) = (.char '[' :: r, none) := by
  cases hcut : Text.cutFirst ']' r with
  | none => exact .inr (by simp only [hostAndPort, hcut])
  | some cut =>
    obtain ⟨t, rest⟩ := cut
    obtain ⟨rfl, hclose⟩ := Text.cutFirst_eq_some.1 hcut
    match rest with
    | [] => exact .inl ⟨t, none, rfl, hclose, by simp only [hostAndPort, hcut]⟩
    | c :: rest =>
      by_cases hc : c = ':'
      · subst hc
        exact .inl ⟨t, some rest, rfl, hclose, by simp only [hostAndPort, hcut]⟩
      · apply Or.inr
        simp only [hostAndPort, hcut]
        split
        · next heq => exact absurd heq (by simp)
        · next heq => exact absurd heq (by simp)
        · next heq => exact absurd heq (by simp [hc])
        · rfl

theorem hostAndPort_of_head_ne {s : Text} (h : s.head? ≠ some (.char '[')) :
    ∃ t p, s = t ++ portText p ∧ .char ':' ∉ t ∧ hostAndPort s = (t, p) := by
  cases hcut : Text.cutFirst ':' s with
  | none =>
    refine ⟨s, none, (List.append_nil s).symm, Text.cutFirst_eq_none.1 hcut, ?_⟩
    unfold hostAndPort
    split
    · exact absurd rfl h
    · rw [hcut]
  | some cut =>
    obtain ⟨t, p⟩ := cut
    obtain ⟨hs, hc⟩ := Text.cutFirst_eq_some.1 hcut
    refine ⟨t, some p, hs, hc, ?_⟩
    unfold hostAndPort
    split
    · exact absurd rfl h
    · rw [hcut]

end AuthorityParts

namespace Grammar
variable {s t : Text}

theorem unbracket?_eq_some : unbracket? s = some t ↔
    s = .char '[' :: (t ++ [.char ']']) ∨ s = t ∧ s.head? ≠ some (.char '[') ∧
      s.getLast? ≠ some (.char ']') := by
  unfold unbracket?
  by_cases hh : s.head? = some (.char '[')
  · obtain ⟨r, rfl⟩ := List.head?_eq_some_iff.1 hh
    by_cases hl : (.char '[' :: r).getLast? = some (.char ']')
    · obtain ⟨u, hu⟩ := List.getLast?_eq_some_iff.1 hl
      cases u with
      | nil => exact absurd (List.cons.inj hu).1 (by decide)
      | cons c u =>
        obtain ⟨rfl, hr⟩ := List.cons.inj hu
        have hsame : r = u ++ [.char ']'] := hr
        subst hsame
        simp [hl]
    · have hne : r ≠ t ++ [.char ']'] := by
        intro heq
        subst heq
        exact hl (by rw [← List.cons_append, List.getLast?_concat])
      simp [hl, hne]
  · have hne : s ≠ .char '[' :: (t ++ [.char ']']) := by
      intro heq
      subst heq
      exact hh rfl
    by_cases hl : s.getLast? = some (.char ']')
    · simp [hh, hl, hne]
    · simp [hh, hl, hne]

theorem isHost_iff : isHost s = true ↔ ∃ t, unbracket? s = some t ∧
    (if .char ':' ∈ t then Ip.isIpv6 t else isEncoded isNameChar t) = true := by
  unfold isHost
  cases unbracket? s <;> simp

theorem unbracket?_of_not_mem (ho : .char '[' ∉ s) (hc : .char ']' ∉ s) : unbracket? s = some s :=
  unbracket?_eq_some.2 (.inr ⟨rfl, fun h => ho (List.mem_of_head? h),
    fun h => hc (List.mem_of_getLast? h)⟩)

theorem free_of_name (h : isEncoded isNameChar s = true) :
    ∀ d ∈ s, Components.endsAuthority d = false :=
  Components.endsAuthority_eq_false ⟨not_mem_isEncoded h (by decide),
    not_mem_isEncoded h (by decide), not_mem_isEncoded h (by decide)⟩

theorem afterUserInfo_of_not_mem (h : .char '@' ∉ s) : afterUserInfo s = s := by
  unfold afterUserInfo
  rw [Text.cutLast_eq_none.2 h]

theorem afterUserInfo_append {info : Text} (h : .char '@' ∉ s) :
    afterUserInfo (info ++ .char '@' :: s) = s := by
  unfold afterUserInfo
  rw [Text.cutLast_eq_some.2 ⟨rfl, h⟩]

def isLocation (s : Text) : Bool :=
  let parts := AuthorityParts.hostAndPort s
  parts.2.all (·.all CodePoint.isDigit) &&
    (if s.head? = some (.char '[') then .char ':' ∈ parts.1 && isHost parts.1 else isHost parts.1)

theorem isAuthority_of_mem {u r : Text} (h : Text.cutLast '@' s = some (u, r)) :
    isAuthority s = (isEncoded isUserInfoChar u && isLocation r) := by
  simp only [isAuthority, AuthorityParts.ofText, afterUserInfo, h, isLocation, Option.all_some,
    Bool.and_assoc]

theorem isAuthority_of_not_mem (h : Text.cutLast '@' s = none) : isAuthority s = isLocation s := by
  simp only [isAuthority, AuthorityParts.ofText, afterUserInfo, h, isLocation, Option.all_none,
    Bool.true_and]

theorem isAuthority_cases (h : isAuthority s = true) : isLocation s = true ∧ .char '@' ∉ s ∨
    ∃ info r, s = info ++ .char '@' :: r ∧ isEncoded isUserInfoChar info = true ∧
      isLocation r = true ∧ .char '@' ∉ r := by
  cases hcut : Text.cutLast '@' s with
  | none =>
    rw [isAuthority_of_not_mem hcut] at h
    exact .inl ⟨h, Text.cutLast_eq_none.1 hcut⟩
  | some cut =>
    obtain ⟨info, r⟩ := cut
    rw [isAuthority_of_mem hcut, Bool.and_eq_true] at h
    obtain ⟨rfl, hat⟩ := Text.cutLast_eq_some.1 hcut
    exact .inr ⟨info, r, rfl, h.1, h.2, hat⟩

end Grammar

end HttpUri
