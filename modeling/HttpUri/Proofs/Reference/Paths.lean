import HttpUri.Proofs.Reference.Segments
import HttpUri.Proofs.Reference.Separation

/-! Which encoded texts each of the path rules allows. -/
namespace HttpUri.Abnf
open scoped Computability

variable {s t : Text}

/-- Two choices repeated are runs of the first between occurrences of the second. -/
theorem add_kstar {α : Type} [KleeneAlgebra α] (a b : α) : (a + b)∗ = a∗ * (b * a∗)∗ := by
  have ha : a∗ ≤ (a + b)∗ := kstar_mono le_self_add
  have hb : b * a∗ ≤ (a + b)∗ := by
    calc b * a∗ ≤ (a + b) * (a + b)∗ := mul_le_mul' le_add_self ha
      _ ≤ (a + b)∗ := mul_kstar_le_kstar
  apply le_antisymm
  · apply kstar_le_of_mul_le_right (one_le_mul one_le_kstar one_le_kstar)
    rw [add_mul]
    refine add_le ?_ ?_
    · calc a * (a∗ * (b * a∗)∗) = a * a∗ * (b * a∗)∗ := (mul_assoc _ _ _).symm
        _ ≤ a∗ * (b * a∗)∗ := mul_le_mul_left mul_kstar_le_kstar _
    · calc b * (a∗ * (b * a∗)∗) = b * a∗ * (b * a∗)∗ := (mul_assoc _ _ _).symm
        _ ≤ (b * a∗)∗ := mul_kstar_le_kstar
        _ ≤ a∗ * (b * a∗)∗ := le_mul_of_one_le_left' one_le_kstar
  · calc a∗ * (b * a∗)∗ ≤ (a + b)∗ * (a + b)∗∗ := mul_le_mul' ha (kstar_mono hb)
      _ = (a + b)∗ := by rw [kstar_idem, kstar_mul_kstar]

def anyPath : Language CodePoint := (pchar + sign '/')∗

theorem mem_anyPath : s ∈ anyPath ↔ Grammar.isEncoded Grammar.isPathChar s = true := by
  unfold anyPath
  rw [pathChar_eq, mem_encoded rfl]

theorem anyPath_eq : anyPath = segment * pathAbempty := add_kstar pchar (sign '/')

theorem pathAbempty_eq : pathAbempty = 1 + sign '/' * anyPath := by
  rw [anyPath_eq, ← mul_assoc]
  exact (one_add_mul_kstar).symm

theorem pathRootless_eq : pathRootless = pchar * anyPath := by
  rw [anyPath_eq, ← mul_assoc]
  rfl

theorem anyPath_eq_cons : anyPath = 1 + pathRootless + sign '/' * anyPath := by
  rw [pathRootless_eq, add_assoc, ← add_mul]
  exact (one_add_mul_kstar).symm

@[simp] theorem isEncoded_slash (t : Text) : Grammar.isEncoded Grammar.isPathChar (.char '/' :: t) =
    Grammar.isEncoded Grammar.isPathChar t :=
  Grammar.isEncoded_cons (by decide)

theorem mem_pathAbempty : s ∈ pathAbempty ↔
    Grammar.isEncoded Grammar.isPathChar s = true ∧ (s = [] ∨ ∃ t, s = .char '/' :: t) := by
  rw [pathAbempty_eq, Language.mem_add, Language.mem_one, mem_sign_mul]
  constructor
  · intro h
    rcases h with rfl | ⟨t, ht, rfl⟩
    · exact ⟨rfl, .inl rfl⟩
    · exact ⟨(isEncoded_slash t).trans (mem_anyPath.1 ht), .inr ⟨t, rfl⟩⟩
  · intro h
    obtain ⟨he, rfl | ⟨t, rfl⟩⟩ := h
    · exact .inl rfl
    · exact .inr ⟨t, mem_anyPath.2 ((isEncoded_slash t).symm.trans he), rfl⟩

theorem mem_pathRootless : s ∈ pathRootless ↔
    Grammar.isEncoded Grammar.isPathChar s = true ∧ s ≠ [] ∧ ∀ t, s ≠ .char '/' :: t := by
  rw [← mem_anyPath]
  constructor
  · intro h
    refine ⟨?_, ?_⟩
    · rw [anyPath_eq_cons]
      exact .inl (.inr h)
    · rw [pathRootless_eq, pchar_eq, add_mul] at h
      rcases h with h | h
      · obtain ⟨c, t, hc, -, rfl⟩ := mem_oneOf_mul.1 h
        refine ⟨List.cons_ne_nil c t, ?_⟩
        intro u hu
        obtain ⟨rfl, -⟩ := List.cons.inj hu
        exact absurd hc (by decide)
      · obtain ⟨high, low, t, -, -, -, rfl⟩ := mem_pctEncoded_mul.1 h
        refine ⟨List.cons_ne_nil _ _, ?_⟩
        intro u hu
        exact absurd (List.cons.inj hu).1 (by decide)
  · intro hm
    obtain ⟨h, hne, hno⟩ := hm
    rw [anyPath_eq_cons] at h
    rcases h with (h | h) | h
    · exact absurd h hne
    · exact h
    · obtain ⟨t, -, rfl⟩ := mem_sign_mul.1 h
      exact absurd rfl (hno t)

theorem mem_pathAbsolute : s ∈ pathAbsolute ↔ Grammar.isEncoded Grammar.isPathChar s = true ∧
    ∃ t, s = .char '/' :: t ∧ ∀ u, t ≠ .char '/' :: u := by
  unfold pathAbsolute
  rw [mem_sign_mul]
  constructor
  · intro h
    obtain ⟨t, ht, rfl⟩ := h
    rw [isEncoded_slash]
    rcases mem_optional.1 ht with rfl | ht
    · exact ⟨rfl, [], rfl, fun u => nofun⟩
    · obtain ⟨he, -, hno⟩ := mem_pathRootless.1 ht
      exact ⟨he, t, rfl, hno⟩
  · intro h
    obtain ⟨he, t, rfl, hno⟩ := h
    rw [isEncoded_slash] at he
    refine ⟨t, mem_optional.2 ?_, rfl⟩
    by_cases hn : t = []
    · exact .inl hn
    · exact .inr (mem_pathRootless.2 ⟨he, hn, hno⟩)

theorem mem_hierPath : s ∈ pathAbsolute + pathRootless + pathEmpty ↔
    Grammar.isEncoded Grammar.isPathChar s = true ∧ ∀ t, s ≠ .char '/' :: .char '/' :: t := by
  rw [Language.mem_add, Language.mem_add, mem_pathAbsolute, mem_pathRootless, pathEmpty,
    Language.mem_one]
  constructor
  · intro h
    rcases h with (⟨he, t, rfl, hno⟩ | ⟨he, -, hno⟩) | rfl
    · exact ⟨he, fun u hu => hno u (List.cons.inj hu).2⟩
    · exact ⟨he, fun u => hno _⟩
    · exact ⟨rfl, fun u => nofun⟩
  · intro h
    obtain ⟨he, hno⟩ := h
    match s with
    | [] => exact .inr rfl
    | c :: t =>
      apply Or.inl
      by_cases hc : c = '/'
      · subst hc
        exact .inl ⟨he, t, rfl, fun u hu => hno u (hu ▸ rfl)⟩
      · exact .inr ⟨he, List.cons_ne_nil c t, fun u hu => hc (List.cons.inj hu).1⟩

theorem mem_mul_kstar {l : Language CodePoint} (h : [] ∉ l) : s ∈ l * l∗ ↔ s ∈ l∗ ∧ s ≠ [] := by
  constructor
  · intro hs
    refine ⟨mem_kstar_iff.2 (.inr hs), ?_⟩
    intro heq
    subst heq
    obtain ⟨u, hu, v, -, huv⟩ := Language.mem_mul.1 hs
    rw [(List.append_eq_nil_iff.1 huv).1] at hu
    exact h hu
  · intro hm
    obtain ⟨hs, hne⟩ := hm
    exact (mem_kstar_iff.1 hs).resolve_left hne

theorem mem_segmentNzNc : s ∈ segmentNzNc ↔
    Grammar.isEncoded Grammar.isSegmentChar s = true ∧ .char ':' ∉ s ∧ s ≠ [] := by
  have hclass : unreserved + pctEncoded + subDelims + sign '@' =
      oneOf (fun c => Grammar.isNameChar c || decide (c = '@')) + pctEncoded := by
    rw [nameChar_eq, sign_eq_oneOf, add_right_comm, oneOf_add_oneOf]
  have hnil : [] ∉ oneOf (fun c => Grammar.isNameChar c || decide (c = '@')) + pctEncoded := by
    intro hx
    rcases hx with ⟨c, -, h⟩ | ⟨u, rfl, v, -, h⟩
    · exact nomatch h
    · exact nomatch h
  unfold segmentNzNc
  rw [hclass, mem_mul_kstar hnil, mem_encoded rfl, ← and_assoc]
  refine and_congr_left fun _ => ?_
  constructor
  · intro h
    refine ⟨Grammar.isEncoded_mono h fun c _ hc => ?_, fun hc => ?_⟩
    · simp only [Grammar.isSegmentChar, Grammar.isUserInfoChar, Bool.or_eq_true] at hc ⊢
      exact hc.imp_left .inl
    · exact Grammar.not_mem_isEncoded h (by decide) hc
  · intro hx
    obtain ⟨h, hcolon⟩ := hx
    refine Grammar.isEncoded_mono h fun c hm hc => ?_
    have hne : c ≠ ':' := by
      intro heq
      subst heq
      exact hcolon hm
    simpa [Grammar.isSegmentChar, Grammar.isUserInfoChar, hne] using hc

private theorem slash_of_colon {u v x y : Text} (hu : .char ':' ∉ u)
    (hv : v = [] ∨ ∃ t, v = .char '/' :: t)
    (h : u ++ v = x ++ .char ':' :: y) : .char '/' ∈ x := by
  rcases List.append_eq_append_iff.1 h with ⟨m, rfl, hm⟩ | ⟨m, rfl, hm⟩
  · rcases hv with rfl | ⟨t, rfl⟩
    · simp at hm
    · cases m with
      | nil => exact absurd (List.cons.inj hm).1 (by decide)
      | cons c m =>
        obtain ⟨rfl, -⟩ := List.cons.inj hm
        simp
  · cases m with
    | nil =>
      rcases hv with rfl | ⟨t, rfl⟩
      · simp at hm
      · exact absurd (List.cons.inj hm).1 (by decide)
    | cons c m =>
      obtain ⟨rfl, -⟩ := List.cons.inj hm
      simp at hu

theorem mem_pathNoscheme : s ∈ pathNoscheme ↔ Grammar.isEncoded Grammar.isPathChar s = true ∧
    s ≠ [] ∧ (∀ t, s ≠ .char '/' :: t) ∧ ∀ x y : Text, s = x ++ .char ':' :: y → .char '/' ∈ x := by
  rw [← mem_anyPath, anyPath_eq]
  constructor
  · intro h
    obtain ⟨u, hu, v, hv, rfl⟩ := Language.mem_mul.1 h
    obtain ⟨hseg, hcolon, hne⟩ := mem_segmentNzNc.1 hu
    have hslash : .char '/' ∉ u := Grammar.not_mem_isEncoded hseg (by decide)
    refine ⟨Language.append_mem_mul (mem_segment.2 hseg) hv, ?_, ?_, ?_⟩
    · exact List.append_ne_nil_of_left_ne_nil hne v
    · intro t ht
      cases u with
      | nil => exact hne rfl
      | cons c u =>
        obtain ⟨rfl, -⟩ := List.cons.inj ht
        exact hslash List.mem_cons_self
    · intro x y hxy
      exact slash_of_colon hcolon (mem_pathAbempty.1 hv).2 hxy
  · intro hm
    obtain ⟨h, hne, hno, hslash⟩ := hm
    obtain ⟨u, hu, v, hv, rfl⟩ := Language.mem_mul.1 h
    have hseg := mem_segment.1 hu
    refine Language.append_mem_mul (mem_segmentNzNc.2 ⟨hseg, ?_, ?_⟩) hv
    · intro hcolon
      obtain ⟨x, y, rfl⟩ := List.append_of_mem hcolon
      have hx : .char '/' ∈ x := hslash x (y ++ v) (by simp)
      have hnot : .char '/' ∉ x ++ .char ':' :: y := Grammar.not_mem_isEncoded hseg (by decide)
      exact hnot (List.mem_append_left _ hx)
    · intro heq
      subst heq
      rcases (mem_pathAbempty.1 hv).2 with rfl | ⟨t, rfl⟩
      · exact hne rfl
      · exact hno t rfl

private theorem slash_of_ends {x : Text} (he : .char '?' ∉ x ∧ .char '#' ∉ x)
    (hcolon : .char ':' ∉ x)
    (h : ∃ d ∈ x, Components.endsScheme d = true) : .char '/' ∈ x := by
  obtain ⟨d, hd, hends⟩ := h
  simp only [Components.endsScheme, Bool.or_eq_true, decide_eq_true_eq] at hends
  rcases hends with ((rfl | rfl) | rfl) | rfl
  · exact absurd hd hcolon
  · exact hd
  · exact absurd hd he.1
  · exact absurd hd he.2

/-- Without a scheme and an authority, a colon in the first segment has to be its first character.
-/
theorem mem_relativePath :
    s ∈ pathAbsolute + pathNoscheme + pathEmpty + sign ':' * (segment * pathAbempty) ↔
      Grammar.isEncoded Grammar.isPathChar s = true ∧ (∀ t, s ≠ .char '/' :: .char '/' :: t) ∧
        ∀ x y : Text, s = x ++ .char ':' :: y → x ≠ [] → ∃ d ∈ x,
          Components.endsScheme d = true := by
  rw [← anyPath_eq, Language.mem_add, Language.mem_add, Language.mem_add, mem_pathAbsolute,
    mem_pathNoscheme, pathEmpty, Language.mem_one, mem_sign_mul]
  constructor
  · intro hm
    rcases hm with ((⟨he, t, rfl, hno⟩ | ⟨he, -, hno, hslash⟩) | rfl) | ⟨t, ht, rfl⟩
    · exact ⟨he, fun u hu => hno u (List.cons.inj hu).2, Components.ends_of_head rfl⟩
    · exact ⟨he, fun u => hno _, fun x y hxy _ => ⟨'/', hslash x y hxy, rfl⟩⟩
    · exact ⟨rfl, fun t => nofun, fun x y h => by simp at h⟩
    · refine ⟨?_, fun u hu => absurd (List.cons.inj hu).1 (by decide), Components.ends_of_head rfl⟩
      exact (Grammar.isEncoded_cons (by decide)).trans (mem_anyPath.1 ht)
  · intro hm
    obtain ⟨he, hno, hends⟩ := hm
    have hfree : .char '?' ∉ s ∧ .char '#' ∉ s :=
      ⟨Grammar.not_mem_isEncoded he (by decide), Grammar.not_mem_isEncoded he (by decide)⟩
    match s with
    | [] => exact .inl (.inr rfl)
    | c :: t =>
      by_cases hslash : c = '/'
      · subst hslash
        exact .inl (.inl (.inl ⟨he, t, rfl, fun u hu => hno u (hu ▸ rfl)⟩))
      by_cases hcolon : c = ':'
      · subst hcolon
        have ht := (Grammar.isEncoded_cons (by decide)).symm.trans he
        exact .inr ⟨t, mem_anyPath.2 ht, rfl⟩
      have hhead : ∀ u, c :: t ≠ .char '/' :: u := fun u hu => hslash (List.cons.inj hu).1
      refine .inl (.inl (.inr ⟨he, List.cons_ne_nil c t, hhead, ?_⟩))
      -- The colon may not be the first one; what ends the scheme stands before that.
      have hfirst : ∀ x y : Text, c :: t = x ++ .char ':' :: y → .char ':' ∉ x → .char '/' ∈ x := by
        intro x y hxy hx
        rw [hxy] at hfree
        simp only [List.mem_append, not_or] at hfree
        refine slash_of_ends ⟨hfree.1.1, hfree.2.1⟩ hx (hends x y hxy ?_)
        intro heq
        subst heq
        exact hcolon (List.cons.inj hxy).1
      intro x y hxy
      by_cases hx : .char ':' ∈ x
      · obtain ⟨u, v, rfl, hu⟩ := List.eq_append_cons_of_mem hx
        rw [List.append_assoc] at hxy
        exact List.mem_append_left _ (hfirst u _ hxy hu)
      · exact hfirst x y hxy hx

end HttpUri.Abnf
