import HttpUri.Ip
import HttpUri.Proofs.Text.Pieces

/-! The characters that addresses are written in. -/
namespace HttpUri.Ip
variable {s : Text} {c : CodePoint}

def isAddressChar (c : CodePoint) : Bool := Text.isHex c || c = ':' || c = '.'

theorem isHex_of_isDigit {c : CodePoint} (h : c.isDigit = true) : Text.isHex c = true := by
  rw [Text.isHex, Text.hexValue?, if_pos (CodePoint.isDigit_iff.1 h)]
  rfl

theorem mem_isGroup (h : isGroup s = true) (hc : c ∈ s) : isAddressChar c = true := by
  have hall : s.all Text.isHex = true := (Bool.and_eq_true_iff.1 h).2
  have hhex := List.all_eq_true.1 hall c hc
  unfold isAddressChar
  rw [hhex]
  rfl

theorem mem_isDotted (h : isDotted s = true) (hc : c ∈ s) : isAddressChar c = true := by
  rcases Text.mem_splitOn '.' hc with rfl | ⟨part, hpart, hc⟩
  · rfl
  · have hoctet := List.all_eq_true.1 (Bool.and_eq_true_iff.1 h).2 part hpart
    simp only [isOctet, Numeral.isDigits, Bool.and_eq_true] at hoctet
    have hhex := isHex_of_isDigit (List.all_eq_true.1 hoctet.1.1.1.2 c hc)
    unfold isAddressChar
    rw [hhex]
    rfl

theorem mem_countGroups? {dotted : Bool} {parts : List Text} {n : Nat}
    (h : countGroups? dotted parts = some n) :
    ∀ part ∈ parts, isGroup part = true ∨ isDotted part = true := by
  induction parts generalizing n with
  | nil => exact fun part hp => absurd hp List.not_mem_nil
  | cons s rest ih =>
    intro part hp
    cases rest with
    | nil =>
      have heq := List.mem_singleton.1 hp
      subst heq
      unfold countGroups? at h
      split at h
      · next hg => exact .inl hg
      · split at h
        · next hd => exact .inr (Bool.and_eq_true_iff.1 hd).2
        · exact nomatch h
    | cons t rest =>
      have hgroups : (if isGroup s = true then (countGroups? dotted (t :: rest)).map (· + 1)
          else none) = some n := h
      split at hgroups
      · next hg =>
        obtain ⟨m, hm, -⟩ := Option.map_eq_some_iff.1 hgroups
        rcases List.mem_cons.1 hp with rfl | hp
        · exact .inl hg
        · exact ih hm part hp
      · exact nomatch hgroups

theorem mem_groups? {dotted : Bool} {n : Nat} (h : groups? dotted s = some n) (hc : c ∈ s) :
    isAddressChar c = true := by
  unfold groups? at h
  rw [if_neg (List.ne_nil_of_mem hc)] at h
  rcases Text.mem_splitOn ':' hc with rfl | ⟨part, hpart, hc⟩
  · rfl
  · rcases mem_countGroups? h part hpart with hg | hd
    · exact mem_isGroup hg hc
    · exact mem_isDotted hd hc

/-- Without a colon there are at most two groups. -/
theorem colon_mem_of_groups? (h : groups? true s = some 8) : .char ':' ∈ s := by
  refine Decidable.byContradiction fun hcolon => ?_
  unfold groups? at h
  split at h
  · exact nomatch h
  · rw [List.splitOn_eq_singleton hcolon, countGroups?] at h
    split at h
    · exact absurd (Option.some.inj h) (by decide)
    · split at h
      · exact absurd (Option.some.inj h) (by decide)
      · exact nomatch h

theorem mem_isPlain (h : isPlain s = true) :
    (∀ c ∈ s, isAddressChar c = true) ∧ .char ':' ∈ s := by
  unfold isPlain at h
  split at h
  · have hgroups : groups? true s = some 8 := of_decide_eq_true h
    exact ⟨fun c hc => mem_groups? hgroups hc, colon_mem_of_groups? hgroups⟩
  · next left right hcut =>
    split at h
    · next m n hl hr =>
      have heq := Text.cutAt_eq_some hcut
      subst heq
      refine ⟨fun c hc => ?_, by simp⟩
      simp only [List.mem_append, List.mem_cons, List.not_mem_nil, or_false] at hc
      rcases hc with hc | (rfl | rfl) | hc
      · exact mem_groups? hl hc
      · rfl
      · rfl
      · exact mem_groups? hr hc
    · exact nomatch h

/-- An address holds a colon, and other characters only from a percent sign on. -/
theorem mem_isIpv6 (h : isIpv6 s = true) :
    ∃ address zone, s = address ++ zone ∧ (∀ c ∈ address, isAddressChar c = true) ∧
      .char ':' ∈ address ∧ (zone = [] ∨ ∃ name, zone = .char '%' :: name) := by
  have hrest := (Bool.and_eq_true_iff.1 h).2
  split at hrest
  · obtain ⟨hchars, hcolon⟩ := mem_isPlain hrest
    exact ⟨s, [], (List.append_nil s).symm, hchars, hcolon, .inl rfl⟩
  · next address zone hcut =>
    obtain ⟨hchars, hcolon⟩ := mem_isPlain (Bool.and_eq_true_iff.1 hrest).2
    exact ⟨address, .char '%' :: zone, (Text.cutFirst_eq_some.1 hcut).1, hchars, hcolon,
      .inr ⟨zone, rfl⟩⟩

theorem isIpv6_zone {address zone : Text} (h : .char '%' ∉ address) :
    isIpv6 (address ++ .char '%' :: zone) = true ↔ (.char '/' ∉ address ∧ .char '/' ∉ zone) ∧
      (zone ≠ [] ∧ .char '%' ∉ zone) ∧ isPlain address = true := by
  unfold isIpv6
  rw [Text.cutFirst_eq_some.2 ⟨rfl, h⟩]
  simp

theorem colon_mem_of_isIpv6 (h : isIpv6 s = true) : .char ':' ∈ s := by
  obtain ⟨address, zone, rfl, -, hcolon, -⟩ := mem_isIpv6 h
  exact List.mem_append_left zone hcolon

theorem head?_of_isIpv6 (h : isIpv6 s = true) (hc : isAddressChar c = false) :
    s.head? ≠ some c := by
  obtain ⟨address, zone, rfl, hchars, hcolon, -⟩ := mem_isIpv6 h
  cases address with
  | nil => exact absurd hcolon List.not_mem_nil
  | cons d address =>
    intro hhead
    obtain rfl : d = c := Option.some.inj hhead
    exact Bool.false_ne_true (hc.symm.trans (hchars d List.mem_cons_self))

theorem forall_of_isIpv6 (h : isIpv6 s = true) (hzone : .char '%' ∉ s) :
    (∀ c ∈ s, isAddressChar c = true) ∧ .char ':' ∈ s := by
  obtain ⟨address, zone, rfl, hchars, hcolon, rfl | ⟨name, rfl⟩⟩ := mem_isIpv6 h
  · rw [List.append_nil]
    exact ⟨hchars, hcolon⟩
  · exact absurd (List.mem_append_right address List.mem_cons_self) hzone

end HttpUri.Ip
