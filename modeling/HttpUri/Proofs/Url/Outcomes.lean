import HttpUri.Proofs.Url.Host

/-! What becomes of the texts that fit the grammar when they are parsed. -/
namespace HttpUri

/-- The address in the brackets of an authority has a zone with a closing bracket in it, or one that
is nothing but line breaks and tabs. -/
def SpoiledZone (a : Text) : Prop :=
  ∃ address zone after : Text,
    Grammar.afterUserInfo a = .char '[' :: (address ++ .char '%' :: zone ++ .char ']' :: after) ∧
    .char ']' ∉ after ∧ Ip.isIpv6 (address ++ .char '%' :: zone) = true ∧
      (.char ']' ∈ zone ∨ ∀ c ∈ zone, UrlParts.isBreak c = true)

namespace UrlParts
variable {a t : Text}

theorem withoutBreaks_eq_nil_iff : withoutBreaks t = [] ↔ ∀ c ∈ t, isBreak c = true := by
  unfold withoutBreaks
  rw [List.filter_eq_nil_iff]
  simp

theorem head?_withoutBreaks (h : Ip.isIpv6 t = true) :
    (withoutBreaks t).head? ≠ some (.char 'v') := by
  obtain ⟨address, zone, rfl, hchars, hcolon, -⟩ := Ip.mem_isIpv6 h
  rw [withoutBreaks_append, withoutBreaks_of_isAddressChar hchars]
  cases address with
  | nil => exact absurd hcolon List.not_mem_nil
  | cons c rest =>
    intro hhead
    obtain rfl : c = 'v' := Option.some.inj hhead
    exact absurd (hchars _ List.mem_cons_self) (by decide)

/-- An address is still one without its line breaks and tabs, unless there is no more to its zone.
-/
theorem isIpv6_withoutBreaks (h : Ip.isIpv6 t = true) : Ip.isIpv6 (withoutBreaks t) = true ↔
    ¬ ∃ address zone : Text, t = address ++ .char '%' :: zone ∧ ∀ c ∈ zone, isBreak c = true := by
  obtain ⟨address, rest, rfl, hchars, -, hrest⟩ := Ip.mem_isIpv6 h
  have hpercent : .char '%' ∉ address := Text.not_mem_of_forall hchars rfl
  have haddress := withoutBreaks_of_isAddressChar hchars
  rcases hrest with rfl | ⟨zone, rfl⟩
  · rw [List.append_nil] at h ⊢
    rw [haddress]
    refine iff_of_true h fun hzone => ?_
    obtain ⟨front, zone, rfl, -⟩ := hzone
    exact hpercent (by simp)
  · obtain ⟨⟨hslash, hslash'⟩, ⟨-, hsign⟩, hplain⟩ := (Ip.isIpv6_zone hpercent).1 h
    have hfilter : withoutBreaks (address ++ .char '%' :: zone) =
        address ++ .char '%' :: withoutBreaks zone := by
      rw [withoutBreaks_append, haddress]
      rfl
    -- A zone holds no percent sign, so that the last one is where it begins.
    have hunique : (∃ front back, address ++ .char '%' :: zone = front ++ .char '%' :: back ∧
        ∀ c ∈ back, isBreak c = true) ↔ ∀ c ∈ zone, isBreak c = true := by
      constructor
      · intro hback
        obtain ⟨front, back, heq, hbreaks⟩ := hback
        have hno : .char '%' ∉ back := fun hm => absurd (hbreaks _ hm) (by decide)
        obtain ⟨-, rfl⟩ := Text.append_cons_inj heq hsign hno
        exact hbreaks
      · exact fun hzone => ⟨address, zone, rfl, hzone⟩
    rw [hunique, hfilter, Ip.isIpv6_zone hpercent, ← withoutBreaks_eq_nil_iff]
    constructor
    · exact fun hzone => hzone.2.1.1
    · intro hne
      exact ⟨⟨hslash, fun hm => hslash' (mem_withoutBreaks.1 hm).1⟩,
        ⟨hne, fun hm => hsign (mem_withoutBreaks.1 hm).1⟩, hplain⟩

theorem checkLookalikes_eq_error {fault : AuthorityFault} (h : checkLookalikes a = .error fault) :
    fault = .lookalike := by
  unfold checkLookalikes at h
  split at h
  · exact (Except.error.inj h).symm
  · exact nomatch h

end UrlParts

namespace AuthorityParts
open UrlParts
variable {a r t : Text} {p : Option Text}

/-- The authority passes the check of its brackets, and what is then read as its port is in digits.
-/
def Sound (a : Text) : Prop :=
  checkBrackets a = .ok () ∧ ∀ d ∈ (ofText a).port, Numeral.isDigits d = true

theorem sound_literal_iff (hat : .char '@' ∉ .char '[' :: (t ++ .char ']' :: portText p))
    (hp : p.all (·.all CodePoint.isDigit) = true) (hv : t.head? ≠ some (.char 'v')) :
    Sound (.char '[' :: (t ++ .char ']' :: portText p)) ↔ .char ']' ∉ t ∧ Ip.isIpv6 t = true := by
  constructor
  · intro h
    obtain ⟨hcheck, hdigits⟩ := h
    have hclose : .char ']' ∉ t := not_mem_of_digits hat hcheck hdigits
    have haddress := ((checkBrackets_bracketed hclose hat).1 hcheck).2
    rw [if_neg hv] at haddress
    exact ⟨hclose, haddress⟩
  · intro h
    obtain ⟨hclose, hip⟩ := h
    refine ⟨checkBrackets_of_literal hip hv hclose hat, ?_⟩
    rw [ofText_of_not_mem hat, hostAndPort_literal p hclose]
    exact (Option.all_eq_true _ _).1 hp

theorem spoiledZone_literal_iff (hat : .char '@' ∉ .char '[' :: (t ++ .char ']' :: portText p))
    (hp : p.all (·.all CodePoint.isDigit) = true) (hip : Ip.isIpv6 t = true) :
    SpoiledZone (.char '[' :: (t ++ .char ']' :: portText p)) ↔
      ∃ address zone : Text, t = address ++ .char '%' :: zone ∧
        (.char ']' ∈ zone ∨ ∀ c ∈ zone, isBreak c = true) := by
  have hport : .char ']' ∉ portText p := not_mem_portText hp rfl (by decide)
  unfold SpoiledZone
  rw [Grammar.afterUserInfo_of_not_mem hat]
  constructor
  · intro h
    obtain ⟨address, zone, after, heq, hno, -, hspoiled⟩ := h
    obtain ⟨rfl, -⟩ := Text.append_cons_inj (List.cons.inj heq).2 hport hno
    exact ⟨address, zone, rfl, hspoiled⟩
  · intro h
    obtain ⟨address, zone, rfl, hspoiled⟩ := h
    exact ⟨address, zone, portText p, rfl, hport, hip, hspoiled⟩

theorem closing_mem_iff (hip : Ip.isIpv6 t = true) :
    .char ']' ∈ t ↔ ∃ address zone : Text, t = address ++ .char '%' :: zone ∧ .char ']' ∈ zone := by
  obtain ⟨address, rest, rfl, hchars, -, hrest⟩ := Ip.mem_isIpv6 hip
  have hno : .char ']' ∉ address := Text.not_mem_of_forall hchars rfl
  constructor
  · intro h
    have hmem := (List.mem_append.1 h).resolve_left hno
    rcases hrest with rfl | ⟨zone, rfl⟩
    · exact absurd hmem List.not_mem_nil
    · exact ⟨address, zone, rfl, (List.mem_cons.1 hmem).resolve_left (by decide)⟩
  · intro h
    obtain ⟨front, zone, heq, hmem⟩ := h
    rw [heq]
    simp [hmem]

theorem sound_location_iff (h : Grammar.isLocation r = true) (hat : .char '@' ∉ r) :
    Sound (withoutBreaks r) ↔ ¬ SpoiledZone r := by
  obtain ⟨t, p, hp, ⟨hname, rfl⟩ | ⟨hip, rfl⟩⟩ := Abnf.isLocation_cases h
  · have hacc := accepted_name hname hp
    rw [hacc.unbroken]
    refine iff_of_true ⟨hacc.brackets, ?_⟩ fun hspoiled => ?_
    · rw [hacc.parts]
      exact (Option.all_eq_true _ _).1 hp
    · obtain ⟨address, zone, after, heq, -⟩ := hspoiled
      rw [Grammar.afterUserInfo_of_not_mem hat] at heq
      have hopen : .char '[' ∈ t ++ portText p := heq ▸ List.mem_cons_self
      rcases List.mem_append.1 hopen with hm | hm
      · exact Grammar.not_mem_isEncoded hname (by decide) hm
      · exact not_mem_portText hp rfl (by decide) hm
  · have hbreaks := withoutBreaks_literal t hp
    have hat' : .char '@' ∉ .char '[' :: (withoutBreaks t ++ .char ']' :: portText p) := by
      rw [← hbreaks]
      exact fun hm => hat (mem_withoutBreaks.1 hm).1
    have hclose : .char ']' ∈ withoutBreaks t ↔ .char ']' ∈ t := by
      rw [mem_withoutBreaks]
      exact and_iff_left rfl
    rw [hbreaks, sound_literal_iff hat' hp (head?_withoutBreaks hip), hclose, closing_mem_iff hip,
      isIpv6_withoutBreaks hip, spoiledZone_literal_iff hat hp hip, ← not_or]
    simp only [and_or_left, exists_or]

theorem sound_of_userInfo {info : Text} (hinfo : .char '[' ∉ info ∧ .char ']' ∉ info)
    (hat : .char '@' ∉ r) :
    Sound (info ++ .char '@' :: r) ↔ Sound r := by
  have hport : (ofText (info ++ .char '@' :: r)).port = (ofText r).port := by
    rw [ofText_of_not_mem hat, ofText_append hat]
  unfold Sound
  rw [checkBrackets_of_userInfo hinfo hat, hport]

/-- An authority that fits the grammar passes the later checks just if its zone is not spoiled. -/
theorem sound_withoutBreaks_iff (h : Grammar.isAuthority a = true) :
    Sound (withoutBreaks a) ↔ ¬ SpoiledZone a := by
  rcases Grammar.isAuthority_cases h with ⟨hlocation, hat⟩ | ⟨info, r, rfl, huser, hlocation, hat⟩
  · exact sound_location_iff hlocation hat
  · have hinfo : .char '[' ∉ info ∧ .char ']' ∉ info :=
      ⟨Grammar.not_mem_isEncoded huser (by decide),
      Grammar.not_mem_isEncoded huser (by decide)⟩
    have hat' : .char '@' ∉ withoutBreaks r := fun hm => hat (mem_withoutBreaks.1 hm).1
    have hbreaks : withoutBreaks (info ++ .char '@' :: r) =
        info ++ .char '@' :: withoutBreaks r := by
      rw [withoutBreaks_append, withoutBreaks_isEncoded (by decide) huser]
      rfl
    have hspoiled : SpoiledZone (info ++ .char '@' :: r) ↔ SpoiledZone r := by
      unfold SpoiledZone
      rw [Grammar.afterUserInfo_append hat, Grammar.afterUserInfo_of_not_mem hat]
    rw [hbreaks, sound_of_userInfo hinfo hat', hspoiled]
    exact sound_location_iff hlocation hat

end AuthorityParts

theorem Grammar.isAuthority_of_isReference {s : Text} (h : isReference s = true) :
    isAuthority ((Components.ofText s).authority.getD []) = true := by
  cases ha : (Components.ofText s).authority with
  | none => rfl
  | some a => exact ((fits_eq_true.1 h).2.1 a ha).2

namespace Url
open AuthorityParts UrlParts
variable {s : Text}

theorem parse_of_checkBrackets {a : Text} {fault : AuthorityFault}
    (ha : withoutBreaks ((Components.ofText s).authority.getD []) = a)
    (h : Grammar.isReference s = true) (hcheck : checkBrackets a = .error fault) :
    parse s = .error (.url (.refused s fault)) := by
  have hparts := ofText_eq_of_isReference rfl ha h
  rw [hcheck] at hparts
  exact parse_of_refused h hparts

theorem parse_of_brackets {a : Text}
    (ha : withoutBreaks ((Components.ofText s).authority.getD []) = a)
    (h : Grammar.isReference s = true) (hcheck : checkBrackets a = .ok ()) :
    (checkLookalikes a ≠ .ok () ∧ parse s = .error (.url (.refused s .lookalike))) ∨
      ∃ parts, parse s = (parsePort (AuthorityParts.ofText a).port s).map (ofParts s parts) := by
  have hparts := ofText_eq_of_isReference rfl ha h
  rw [hcheck] at hparts
  cases hlook : checkLookalikes a with
  | error fault =>
    obtain rfl := checkLookalikes_eq_error hlook
    rw [hlook] at hparts
    exact .inl ⟨nofun, parse_of_refused h hparts⟩
  | ok =>
    rw [hlook] at hparts
    exact .inr ⟨_, parse_eq h hparts⟩

theorem exists_parse_iff {a : Text}
    (ha : withoutBreaks ((Components.ofText s).authority.getD []) = a)
    (h : Grammar.isReference s = true) : (∃ u, parse s = .ok u) ↔ Sound a ∧
      checkLookalikes a = .ok () ∧
        ∀ d ∈ (AuthorityParts.ofText a).port, d.length ≤ Numeral.digitLimit := by
  subst ha
  constructor
  · intro hparse
    obtain ⟨u, hu⟩ := hparse
    obtain ⟨parts, number, -, hparts, hport, -⟩ := parse_eq_ok_iff.1 hu
    obtain ⟨hcheck, hlook, rfl⟩ := (ofText_of_isReference rfl h).1 hparts
    exact ⟨⟨hcheck, isDigits_of_parsePort hport⟩, hlook, length_le_of_parsePort hport⟩
  · intro hpass
    obtain ⟨⟨hcheck, hdigits⟩, hlook, hlength⟩ := hpass
    have hparts := (ofText_of_isReference rfl h).2 ⟨hcheck, hlook, rfl⟩
    obtain ⟨number, hnumber⟩ := exists_parsePort fun d hd => ⟨hdigits d hd, hlength d hd⟩
    exact ⟨_, parse_eq_ok_iff.2 ⟨_, number, h, hparts, hnumber, rfl⟩⟩

theorem parse_of_sound {a : Text}
    (ha : withoutBreaks ((Components.ofText s).authority.getD []) = a)
    (h : Grammar.isReference s = true) (hsound : Sound a) : (∃ u, parse s = .ok u) ∨
      parse s = .error (.url (.refused s .lookalike)) ∨
      ∃ d ∈ (AuthorityParts.ofText a).port,
        Numeral.digitLimit < d.length ∧ parse s = .error (.tooManyDigits d.length) := by
  obtain ⟨hcheck, hdigits⟩ := hsound
  rcases parse_of_brackets ha h hcheck with ⟨-, hrefused⟩ | ⟨parts, hparse⟩
  · exact .inr (.inl hrefused)
  · rw [hparse]
    cases hport : parsePort (AuthorityParts.ofText a).port s with
    | ok number => exact .inl ⟨_, rfl⟩
    | error e =>
      rcases parsePort_eq_error hport with ⟨-, d, hd, hno⟩ | ⟨d, hd, -, hlong, rfl⟩
      · exact absurd ((hdigits d hd).symm.trans hno) (by decide)
      · exact .inr (.inr ⟨d, hd, hlong, rfl⟩)

theorem parse_of_not_sound {a : Text}
    (ha : withoutBreaks ((Components.ofText s).authority.getD []) = a)
    (h : Grammar.isReference s = true) (hsound : ¬ Sound a) (hlook : checkLookalikes a = .ok ()) :
    (∃ fault, checkBrackets a = .error fault ∧ parse s = .error (.url (.refused s fault))) ∨
      parse s = .error (.url (.portNotNumber s)) := by
  cases hcheck : checkBrackets a with
  | error fault => exact .inl ⟨fault, rfl, parse_of_checkBrackets ha h hcheck⟩
  | ok =>
    have hno : ¬ ∀ d ∈ (AuthorityParts.ofText a).port, Numeral.isDigits d = true :=
      fun hdigits => hsound ⟨hcheck, hdigits⟩
    simp only [not_forall, Bool.not_eq_true] at hno
    obtain ⟨d, hd, hdigits⟩ := hno
    have hport : (AuthorityParts.ofText a).port = some d := hd
    rcases parse_of_brackets ha h hcheck with ⟨hne, -⟩ | ⟨parts, hparse⟩
    · exact absurd hlook hne
    · refine .inr ?_
      rw [hparse, hport, parsePort_of_not_isDigits hdigits]
      rfl

/-- A text that fits the grammar parses but for a spoiled zone, a character that looks like a
delimiter, and a port with too many digits. A spoiled zone fails the check of the brackets, or makes
a port of what is none. -/
theorem parse_outcomes (h : Grammar.isReference s = true) :
    let authority := (Components.ofText s).authority.getD []
    let a := withoutBreaks authority
    let port := (AuthorityParts.ofText a).port
    ((∃ u, parse s = .ok u) ↔ ¬ SpoiledZone authority ∧ checkLookalikes a = .ok () ∧
      ∀ d ∈ port, d.length ≤ Numeral.digitLimit) ∧
    (¬ SpoiledZone authority → (∃ u, parse s = .ok u) ∨
      parse s = .error (.url (.refused s .lookalike)) ∨
      ∃ d ∈ port, Numeral.digitLimit < d.length ∧ parse s = .error (.tooManyDigits d.length)) ∧
    (SpoiledZone authority → checkLookalikes a = .ok () →
      (∃ fault, checkBrackets a = .error fault ∧ parse s = .error (.url (.refused s fault))) ∨
      parse s = .error (.url (.portNotNumber s))) := by
  intro authority a port
  have hsound : Sound a ↔ ¬ SpoiledZone authority :=
    sound_withoutBreaks_iff (Grammar.isAuthority_of_isReference h)
  refine ⟨?_, fun hzone => ?_, fun hzone => ?_⟩
  · rw [← hsound]
    exact exists_parse_iff rfl h
  · exact parse_of_sound rfl h (hsound.2 hzone)
  · exact parse_of_not_sound rfl h fun hpass => hsound.1 hpass hzone

/-- Line breaks and tabs are taken out of a zone, and may leave nothing of it. -/
theorem parse_outcomes_of_zone :
    let kept := "http://u@[::1%a\tb]:8080/p?q#f".points
    let spoiled := "http://[::1%\n]:8080/p?q#f".points
    Grammar.isReference kept = true ∧ (∃ u, parse kept = .ok u) ∧
      Grammar.isReference spoiled = true ∧ ¬ ∃ u, parse spoiled = .ok u := by
  intro kept spoiled
  have hkept : Grammar.isReference kept = true := by decide +kernel
  have hspoiled : Grammar.isReference spoiled = true := by decide +kernel
  refine ⟨hkept, ?_, hspoiled, fun hparse => ?_⟩
  · have hauthority : Grammar.isAuthority "u@[::1%a\tb]:8080".points = true := by decide +kernel
    have hsound : Sound (withoutBreaks "u@[::1%a\tb]:8080".points) :=
      ⟨by decide +kernel, by decide +kernel⟩
    have hzone := (sound_withoutBreaks_iff hauthority).1 hsound
    exact (parse_outcomes hkept).1.2 ⟨hzone, by decide +kernel, by decide +kernel⟩
  · have hip : Ip.isIpv6 ("::1".points ++ [.char '%', .char '\n']) = true := by decide +kernel
    have hzone : SpoiledZone "[::1%\n]:8080".points :=
      ⟨"::1".points, [.char '\n'], ":8080".points, by decide +kernel, by decide, hip,
        .inr (List.forall_mem_singleton.2 rfl)⟩
    exact ((parse_outcomes hspoiled).1.1 hparse).1 hzone

/-- Texts that fit the grammar and are refused for brackets without an address between them, and for
a port that is none. -/
theorem refused_of_isReference :
    let broken := "http://[::1%\n]:8080/p?q#f".points
    let bracket := "//[::1%a]\t:]".points
    (Grammar.isReference broken = true ∧
      parse broken = .error (.url (.refused broken .notAddress))) ∧
    Grammar.isReference bracket = true ∧ parse bracket = .error (.url (.portNotNumber bracket)) :=
  ⟨⟨by decide +kernel, by rfl⟩, by decide +kernel, by rfl⟩

end Url
end HttpUri
