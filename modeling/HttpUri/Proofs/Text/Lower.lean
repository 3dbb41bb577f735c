import HttpUri.Proofs.Charset.Ascii
import HttpUri.Text.Lower

/-! Lower-casing a text twice is lower-casing it once. -/
namespace HttpUri.Text

namespace Lower

/-- No image of the first run is in the second one. Their ranges are apart, or they run through the
even and the odd numbers side by side. -/
def Run.misses (r q : Run) : Bool :=
  (r.target + (r.last - r.first)).blt q.first || q.last.blt r.target ||
    ((r.step.beq 2 || r.first.beq r.last) && q.step.beq 2 && ((r.target + q.first) % 2).beq 1)

theorem Run.image?_eq_some {r : Run} {m n : Nat} (h : r.image? m = some n) :
    ∃ d, n = r.target + d ∧ d ≤ r.last - r.first ∧ d % r.step = 0 := by
  obtain ⟨⟨hfirst, hlast, hstep⟩, hn⟩ := Option.ite_none_right_eq_some.1 h
  exact ⟨m - r.first, (Option.some.inj hn).symm, by omega, hstep⟩

theorem Run.image?_of_misses {r q : Run} (h : r.misses q = true) {m n : Nat}
    (hn : r.image? m = some n) : q.image? n = none := by
  obtain ⟨d, rfl, hd, hstep⟩ := image?_eq_some hn
  refine if_neg fun hq => ?_
  simp only [misses, Bool.or_eq_true, Bool.and_eq_true, Nat.blt_eq, Nat.beq_eq] at h
  obtain ⟨hfirst, hlast, hrest⟩ := hq
  rcases h with (hbefore | hbehind) | ⟨⟨hsteps, htwo⟩, hodd⟩
  · omega
  · omega
  · have heven : d % 2 = 0 := by
      rcases hsteps with hr | hsingle
      · rwa [hr] at hstep
      · omega
    rw [htwo] at hrest
    omega

/-- The code points whose small forms depend on their neighbours or have two characters. -/
def special : List Run := [⟨0x3A3, 0x3A3, 1, 0x3C3⟩, ⟨0x130, 0x130, 1, 0x69⟩]

theorem runs_miss : (runs.all fun r => (special ++ runs).all (r.misses ·)) = true := by
  decide +kernel

theorem runs_target : ∀ r ∈ runs, (r.target + (r.last - r.first) < 0xD800 ∨
    0xE000 ≤ r.target ∧ r.target + (r.last - r.first) < 0x110000) ∧
      (r.target < 0x80 → r.first = r.last ∧
        (CodePoint.ofNat r.target).toLower = CodePoint.ofNat r.target) := by
  decide +kernel

/-- A character that lower-casing leaves as it is, whatever its neighbours. -/
structure IsSmall (c : CodePoint) : Prop where
  sigma : c ≠ 'Σ'
  dotted : c ≠ '\u0130'
  fixed : ofChar c = c

theorem toNat_ofNat {n : Nat} (h : n < 0xD800 ∨ 0xE000 ≤ n ∧ n < 0x110000) :
    (CodePoint.ofNat n).toNat = n := by
  exact CodePoint.toNat_ofNat_of_isValidChar (h.imp_right fun hn => ⟨by omega, hn.2⟩)

theorem isSmall_of_image {r : Run} (hr : r ∈ runs) {m n : Nat} (h : r.image? m = some n) :
    IsSmall (CodePoint.ofNat n) := by
  obtain ⟨hvalid, hascii⟩ := runs_target r hr
  have hmiss : ∀ q ∈ special ++ runs, q.image? n = none := fun q hq =>
    Run.image?_of_misses (List.all_eq_true.1 (List.all_eq_true.1 runs_miss r hr) q hq) h
  obtain ⟨d, hd, hle, -⟩ := Run.image?_eq_some h
  have hn : (CodePoint.ofNat n).toNat = n := toNat_ofNat (by omega)
  have hne : ∀ q ∈ special, ∀ c : CodePoint, q.image? c.toNat ≠ none → CodePoint.ofNat n ≠ c := by
    rintro q hq c hc rfl
    rw [hn] at hc
    exact hc (hmiss q (List.mem_append_left runs hq))
  refine ⟨hne _ List.mem_cons_self _ (by decide),
    hne _ (List.mem_cons_of_mem _ List.mem_cons_self) _ (by decide), ?_⟩
  unfold ofChar
  rw [hn]
  split
  · next hlt =>
    obtain ⟨hsingle, hlower⟩ := hascii (by omega)
    have htarget : n = r.target := by omega
    rw [htarget]
    exact hlower
  · have hnone : runs.findSome? (·.image? n) = none :=
      List.findSome?_eq_none_iff.2 fun q hq => hmiss q (List.mem_append_right special hq)
    rw [hnone]

theorem isSmall_ofChar {c : CodePoint} (hs : c ≠ 'Σ') (hd : c ≠ '\u0130') : IsSmall (ofChar c) := by
  by_cases hc : c.toNat < 0x80
  · have heq : ofChar c = c.toLower := if_pos hc
    obtain ⟨hfixed, hlt⟩ := forall_ascii
      (P := fun c => ofChar c.toLower = c.toLower ∧ c.toLower.toNat < 0x80) (by decide +kernel)
      (decide_eq_true hc)
    rw [heq]
    refine ⟨?_, ?_, hfixed⟩ <;> intro hbig <;> exact absurd hlt (hbig ▸ by decide)
  · cases hrun : runs.findSome? (·.image? c.toNat) with
    | none =>
      have heq : ofChar c = c := by
        rw [ofChar, if_neg hc, hrun]
      rw [heq]
      exact ⟨hs, hd, heq⟩
    | some n =>
      have heq : ofChar c = CodePoint.ofNat n := by
        rw [ofChar, if_neg hc, hrun]
      obtain ⟨r, hr, himage⟩ := List.exists_of_findSome?_eq_some hrun
      rw [heq]
      exact isSmall_of_image hr himage

end Lower

open Lower

theorem isSmall_of_mem_lowerAfter {s : Text} {cased : Bool} {d : CodePoint}
    (h : d ∈ lowerAfter cased s) : IsSmall d := by
  induction s generalizing cased with
  | nil => exact absurd h List.not_mem_nil
  | cons c rest ih =>
    rcases List.mem_append.1 h with hsmall | hrest
    · split at hsmall
      · split at hsmall
        · rw [List.mem_singleton.1 hsmall]
          exact ⟨by decide, by decide, by decide +kernel⟩
        · rw [List.mem_singleton.1 hsmall]
          exact ⟨by decide, by decide, by decide +kernel⟩
      · next hs =>
        split at hsmall
        · rcases List.mem_cons.1 hsmall with rfl | hdot
          · exact ⟨by decide, by decide, by decide +kernel⟩
          · rw [List.mem_singleton.1 hdot]
            exact ⟨by decide, by decide, by decide +kernel⟩
        · next hd =>
          rw [List.mem_singleton.1 hsmall]
          exact isSmall_ofChar hs hd
    · exact ih hrest

theorem lowerAfter_of_isSmall {s : Text} (h : ∀ c ∈ s, IsSmall c) (cased : Bool) :
    lowerAfter cased s = s := by
  induction s generalizing cased with
  | nil => rfl
  | cons c rest ih =>
    obtain ⟨hc, hrest⟩ := List.forall_mem_cons.1 h
    rw [lowerAfter, if_neg hc.sigma, if_neg hc.dotted, hc.fixed, ih hrest]
    rfl

/-- No small form has a small form other than itself. -/
@[simp] theorem lower_lower (s : Text) : lower (lower s) = lower s :=
  lowerAfter_of_isSmall (fun _ hc => isSmall_of_mem_lowerAfter hc) false

theorem lower_ne_nil {s : Text} (h : s ≠ []) : lower s ≠ [] := by
  obtain ⟨c, rest, rfl⟩ := List.exists_cons_of_ne_nil h
  refine List.append_ne_nil_of_left_ne_nil ?_ _
  split
  · exact List.cons_ne_nil _ _
  · split
    · exact List.cons_ne_nil _ _
    · exact List.cons_ne_nil _ _

end HttpUri.Text
