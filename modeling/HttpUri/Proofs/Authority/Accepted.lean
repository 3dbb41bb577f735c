import HttpUri.Proofs.Authority.Composed
import HttpUri.Proofs.Charset.Ascii
import HttpUri.Proofs.Reference.Location

/-! Authorities of a name or an address, with a port or none, pass every check. -/
namespace HttpUri

namespace UrlParts
open AuthorityParts (portText)
variable {a t : Text} {p : Option Text}

theorem checkBrackets_of_not_mem (ho : .char '[' ∉ a) (hc : .char ']' ∉ a) :
    checkBrackets a = .ok () := by
  unfold checkBrackets
  rw [decide_eq_false ho, decide_eq_false hc]

theorem checkBrackets_of_literal (hip : Ip.isIpv6 t = true) (hv : t.head? ≠ some (.char 'v'))
    (hclose : .char ']' ∉ t) (hat : .char '@' ∉ .char '[' :: (t ++ .char ']' :: portText p)) :
    checkBrackets (.char '[' :: (t ++ .char ']' :: portText p)) = .ok () := by
  have hport : portText p = [] ∨ (portText p).head? = some (.char ':') := by
    cases p with
    | none => exact .inl rfl
    | some d => exact .inr rfl
  refine (checkBrackets_bracketed hclose hat).2 ⟨hport, ?_⟩
  rw [if_neg hv, hip]

/-- Each character is looked at by itself, and those that look like a delimiter are beyond ASCII. -/
theorem checkLookalikes_of_mem {s : Text} (h : checkLookalikes a = .ok ())
    (hs : ∀ c ∈ s, c ∈ a ∨ Percent.isAscii c = true) : checkLookalikes s = .ok () := by
  have hrange : ∀ r ∈ lookalikes, 0x80 ≤ r.1 := by decide
  refine if_neg fun hany => ?_
  obtain ⟨c, hc, hin⟩ := List.any_eq_true.1 hany
  rcases hs c hc with hmem | hascii
  · unfold checkLookalikes at h
    rw [if_pos (List.any_eq_true.2 ⟨c, hmem, hin⟩)] at h
    exact nomatch h
  · obtain ⟨r, hr, hle⟩ := List.any_eq_true.1 hin
    have hsmall : c.toNat < 0x80 := of_decide_eq_true hascii
    have hfirst := hrange r hr
    simp only [Bool.and_eq_true, decide_eq_true_eq] at hle
    omega

theorem checkLookalikes_of_ascii (h : ∀ c ∈ a, Percent.isAscii c = true) :
    checkLookalikes a = .ok () := checkLookalikes_of_mem (a := []) rfl fun c hc => .inr (h c hc)

end UrlParts

namespace AuthorityParts
open UrlParts
variable {a t : Text} {p : Option Text}

theorem isAscii_portText (hp : p.all (·.all CodePoint.isDigit) = true) :
    ∀ c ∈ portText p, Percent.isAscii c = true := by
  cases p with
  | none => exact List.forall_mem_nil _
  | some d =>
    have hdigits : d.all CodePoint.isDigit = true := hp
    refine List.forall_mem_cons.2 ⟨rfl, fun c hc => isAscii_of_isAlphanum ?_⟩
    rw [CodePoint.isAlphanum, List.all_eq_true.1 hdigits c hc, Bool.or_true]

/-- An authority that the grammar takes as it stands, and that has no user info. -/
structure Accepted (a host : Text) (p : Option Text) : Prop where
  parts : ofText a = ⟨none, host, p⟩
  free : ∀ d ∈ a, Components.endsAuthority d = false
  unbroken : withoutBreaks a = a
  fits : Grammar.isAuthority a = true
  brackets : checkBrackets a = .ok ()

/-- An address that stands in brackets, and ends at the closing one, wherever it is put. -/
structure Enclosable (t : Text) : Prop where
  address : Ip.isIpv6 t = true
  close : .char ']' ∉ t
  sign : .char '@' ∉ t
  free : ∀ d ∈ t, Components.endsAuthority d = false
  unbroken : Unbroken t

theorem enclosable_of_not_mem (hip : Ip.isIpv6 t = true) (hzone : .char '%' ∉ t) :
    Enclosable t := by
  obtain ⟨hchars, -⟩ := Ip.forall_of_isIpv6 hip hzone
  have hfree : ∀ c, Ip.isAddressChar c = false → c ∉ t := fun c => Text.not_mem_of_forall hchars
  refine ⟨hip, hfree _ rfl, hfree _ rfl, ?_, unbroken_iff.2 ?_⟩
  · exact Components.endsAuthority_eq_false ⟨hfree '/' rfl, hfree '?' rfl, hfree '#' rfl⟩
  · exact withoutBreaks_of_not_mem ⟨hfree _ rfl, hfree _ rfl, hfree _ rfl⟩

theorem accepted_literal (h : Enclosable t) (hp : p.all (·.all CodePoint.isDigit) = true) :
    Accepted (.char '[' :: (t ++ .char ']' :: portText p)) t p := by
  have hat : .char '@' ∉ .char '[' :: (t ++ .char ']' :: portText p) :=
    not_mem_literal h.sign hp rfl (by decide)
  have hv : t.head? ≠ some (.char 'v') := Ip.head?_of_isIpv6 h.address rfl
  refine ⟨?_, ?_, ?_, ?_, checkBrackets_of_literal h.address hv h.close hat⟩
  · rw [ofText_of_not_mem hat, hostAndPort_literal p h.close]
  · have hclose : ∀ d ∈ .char ']' :: portText p, Components.endsAuthority d = false :=
      List.forall_mem_cons.2 ⟨rfl, free_portText hp⟩
    exact List.forall_mem_cons.2 ⟨rfl, List.forall_mem_append.2 ⟨h.free, hclose⟩⟩
  · exact unbroken_iff.1 (.cons rfl (h.unbroken.append (.cons rfl (unbroken_portText hp))))
  · rw [Grammar.isAuthority_of_not_mem (Text.cutLast_eq_none.2 hat)]
    exact Abnf.isLocation_literal h.address h.close hp

theorem accepted_name (ht : Grammar.isEncoded Grammar.isNameChar t = true)
    (hp : p.all (·.all CodePoint.isDigit) = true) : Accepted (t ++ portText p) t p := by
  have hat : .char '@' ∉ t ++ portText p := by
    rw [List.mem_append, not_or]
    exact ⟨Grammar.not_mem_isEncoded ht (by decide), not_mem_portText hp rfl (by decide)⟩
  have hopen : .char '[' ∉ t := Grammar.not_mem_isEncoded ht (by decide)
  have hclose : .char ']' ∉ t := Grammar.not_mem_isEncoded ht (by decide)
  have hcolon : .char ':' ∉ t := Grammar.not_mem_isEncoded ht (by decide)
  refine ⟨?_, ?_, ?_, ?_, ?_⟩
  · have hhead : t.head? ≠ some (.char '[') := fun h => hopen (List.mem_of_head? h)
    rw [ofText_of_not_mem hat, hostAndPort_name p hhead hcolon]
  · exact List.forall_mem_append.2 ⟨Grammar.free_of_name ht, free_portText hp⟩
  · rw [withoutBreaks_append, withoutBreaks_isEncoded (by decide) ht, withoutBreaks_portText hp]
  · rw [Grammar.isAuthority_of_not_mem (Text.cutLast_eq_none.2 hat)]
    exact Abnf.isLocation_name ht hp
  · apply checkBrackets_of_not_mem
    · rw [List.mem_append, not_or]
      exact ⟨hopen, not_mem_portText hp rfl (by decide)⟩
    · rw [List.mem_append, not_or]
      exact ⟨hclose, not_mem_portText hp rfl (by decide)⟩

/-- A host as an authority gives it: a name, or an address without its brackets. -/
def Standing (t : Text) : Prop :=
  Grammar.isEncoded Grammar.isNameChar t = true ∨ Enclosable t

theorem Standing.accepted (h : Standing t) (hp : p.all (·.all CodePoint.isDigit) = true) :
    Accepted (bracketed t ++ portText p) t p := by
  rcases h with hname | hliteral
  · have hcolon : .char ':' ∉ t := Grammar.not_mem_isEncoded hname (by decide)
    rw [bracketed, if_neg fun h => hcolon h.1]
    exact accepted_name hname hp
  · rw [bracketed_of_isIpv6 hliteral.address, literal_append_portText]
    exact accepted_literal hliteral hp

theorem mem_bracketed_portText {c : CodePoint} (hp : p.all (·.all CodePoint.isDigit) = true)
    (h : c ∈ bracketed t ++ portText p) : c ∈ t ∨ Percent.isAscii c = true := by
  rcases List.mem_append.1 h with hc | hc
  · rcases mem_bracketed hc with hc | rfl | rfl
    · exact .inl hc
    · exact .inr rfl
    · exact .inr rfl
  · exact .inr (isAscii_portText hp c hc)

end AuthorityParts

namespace Components
open AuthorityParts
variable {n a host path : Text} {p raw : Option Text}

/-- Behind a scheme and an authority without delimiters, a path that is empty or has a slash in
front cannot be taken for anything else, also if it begins with two of them. -/
theorem separated_of_accepted (hn : Grammar.isScheme n = true) (ha : Accepted a host p)
    (hslash : path = [] ∨ ∃ t, path = .char '/' :: t)
    (hpath : Grammar.isEncoded Grammar.isPathChar path = true)
    (hquery : ∀ q ∈ raw, Grammar.isEncoded Grammar.isQueryChar q = true) :
    (⟨some n, some a, path, raw, none⟩ : Components).Separated := by
  refine ⟨fun s hs => ?_, nofun, fun s hs => ?_, nofun, ?_, fun q hq => ?_⟩
  · obtain rfl : n = s := Option.some.inj hs
    exact Grammar.separated_of_isScheme hn
  · obtain rfl : a = s := Option.some.inj hs
    exact ⟨ha.free, hslash⟩
  · exact endsPath_eq_false ⟨Grammar.not_mem_isEncoded hpath (by decide),
      Grammar.not_mem_isEncoded hpath (by decide)⟩
  · exact Grammar.not_mem_isEncoded (hquery q hq) (by decide)

theorem fits_of_accepted (hn : Grammar.isScheme n = true) (ha : Accepted a host p)
    (hne : a ≠ [] ∨ path ≠ []) (hpath : Grammar.isEncoded Grammar.isPathChar path = true)
    (hquery : ∀ q ∈ raw, Grammar.isEncoded Grammar.isQueryChar q = true) :
    Grammar.fits ⟨some n, some a, path, raw, none⟩ = true := by
  refine Grammar.fits_eq_true.2 ⟨fun s hs => ?_, fun s hs => ?_, hpath, hquery, nofun⟩
  · obtain rfl : n = s := Option.some.inj hs
    exact ⟨hn, .inl rfl⟩
  · obtain rfl : a = s := Option.some.inj hs
    exact ⟨hne, ha.fits⟩

end Components

namespace Abnf
open AuthorityParts
variable {h t : Text} {p : Option Text}

/-- Host names as they may be given: an address stands with or without brackets. -/
def hostname : Language CodePoint := regName + (ipv6Address + ipLiteral)

/-- An address, with or without brackets, is put in brackets; a name is not. -/
theorem bracketed_of_mem_hostname (hh : h ∈ hostname) (hzone : ¬ (.char ':' ∈ h ∧ .char '%' ∈ h)) :
    (Grammar.isEncoded Grammar.isNameChar h = true ∧ bracketed h = h) ∨
      ∃ t, Ip.isIpv6 t = true ∧ .char '%' ∉ t ∧ (h = t ∨ h = .char '[' :: (t ++ [.char ']'])) ∧
        bracketed h = .char '[' :: (t ++ [.char ']']) := by
  rcases hh with hname | hip | hliteral
  · have hencoded := mem_regName.1 hname
    have hcolon : .char ':' ∉ h := Grammar.not_mem_isEncoded hencoded (by decide)
    exact .inl ⟨hencoded, if_neg fun hc => hcolon hc.1⟩
  · have hcolon : .char ':' ∈ h := Ip.colon_mem_of_isIpv6 hip
    have hplain : .char '%' ∉ h := fun hm => hzone ⟨hcolon, hm⟩
    exact .inr ⟨h, hip, hplain, .inl rfl, bracketed_of_isIpv6 hip⟩
  · obtain ⟨t, hip, rfl⟩ := mem_ipLiteral.1 hliteral
    have hcolon : .char ':' ∈ t := Ip.colon_mem_of_isIpv6 hip
    have hplain : .char '%' ∉ t := fun hm => hzone ⟨by simp [hcolon], by simp [hm]⟩
    exact .inr ⟨t, hip, hplain, .inr rfl, if_neg (by simp)⟩

theorem isHost_of_mem_hostname (hh : h ∈ hostname) (hzone : ¬ (.char ':' ∈ h ∧ .char '%' ∈ h)) :
    Grammar.isHost h = true := by
  rcases bracketed_of_mem_hostname hh hzone with ⟨hname, -⟩ | ⟨t, hip, hplain, hcase, -⟩
  · have hopen : .char '[' ∉ h := Grammar.not_mem_isEncoded hname (by decide)
    have hclose : .char ']' ∉ h := Grammar.not_mem_isEncoded hname (by decide)
    have hcolon : .char ':' ∉ h := Grammar.not_mem_isEncoded hname (by decide)
    have hbare := Grammar.unbracket?_of_not_mem hopen hclose
    exact Grammar.isHost_iff.2 ⟨h, hbare, by rw [if_neg hcolon, hname]⟩
  · obtain ⟨hchars, hcolon⟩ := Ip.forall_of_isIpv6 hip hplain
    refine Grammar.isHost_iff.2 ⟨t, ?_, by rw [if_pos hcolon, hip]⟩
    rcases hcase with rfl | rfl
    · exact Grammar.unbracket?_of_not_mem (Text.not_mem_of_forall hchars rfl)
        (Text.not_mem_of_forall hchars rfl)
    · exact Grammar.unbracket?_eq_some.2 (.inl rfl)

theorem accepted_of_mem_hostname (hh : h ∈ hostname) (hzone : ¬ (.char ':' ∈ h ∧ .char '%' ∈ h))
    (hp : p.all (·.all CodePoint.isDigit) = true) :
    ∃ name, Accepted (bracketed h ++ portText p) name p := by
  rcases bracketed_of_mem_hostname hh hzone with ⟨hname, heq⟩ | ⟨t, hip, hplain, -, heq⟩
  · rw [heq]
    exact ⟨h, accepted_name hname hp⟩
  · rw [heq, literal_append_portText]
    exact ⟨t, accepted_literal (enclosable_of_not_mem hip hplain) hp⟩

theorem mem_hostname_of_isAuthority (hhost : Grammar.isHost h = true)
    (ha : Grammar.isAuthority (bracketed h ++ portText p) = true) : h ∈ hostname := by
  obtain ⟨name, hname, ⟨hip, -⟩ | ⟨hreg, rfl, -⟩⟩ := bracketed_of_isAuthority hhost ha
  · rcases Grammar.unbracket?_eq_some.1 hname with rfl | ⟨rfl, -⟩
    · exact .inr (.inr (mem_ipLiteral.2 ⟨name, hip, rfl⟩))
    · exact .inr (.inl hip)
  · exact .inl (mem_regName.2 hreg)

end Abnf
end HttpUri
