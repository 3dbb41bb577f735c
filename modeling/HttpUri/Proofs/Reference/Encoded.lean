import HttpUri.Proofs.Charset.Ascii
import HttpUri.Reference.Grammar

/-! The characters of encoded components and of schemes. -/
namespace HttpUri.Grammar
variable {p q : CodePoint → Bool} {c : CodePoint} {s t : Text}

theorem isEncoded_cons (h : c ≠ '%') : isEncoded p (c :: s) = (p c && isEncoded p s) := by
  rw [isEncoded]
  · simp [h]
  · rintro high low rest hc -
    exact h hc

theorem isEncoded_of_forall (hp : p '%' = false) (h : ∀ c ∈ s, p c = true) :
    isEncoded p s = true := by
  induction s with
  | nil => rfl
  | cons c rest ih =>
    obtain ⟨hc, hrest⟩ := List.forall_mem_cons.1 h
    have hne : c ≠ '%' := by
      rintro rfl
      exact Bool.false_ne_true (hp.symm.trans hc)
    rw [isEncoded_cons hne, hc, ih hrest]
    rfl

theorem mem_isEncoded (h : isEncoded p s = true) (hc : c ∈ s) :
    c = '%' ∨ Text.isHex c = true ∨ p c = true := by
  induction s using isEncoded.induct with
  | case1 => exact absurd hc List.not_mem_nil
  | case2 high low rest ih =>
    rw [isEncoded, Bool.and_eq_true, Bool.and_eq_true] at h
    obtain ⟨⟨hh, hl⟩, hr⟩ := h
    simp only [List.mem_cons] at hc
    rcases hc with rfl | rfl | rfl | hc
    · exact .inl rfl
    · exact .inr (.inl hh)
    · exact .inr (.inl hl)
    · exact ih hr hc
  | case3 d rest hno ih =>
    rw [isEncoded, Bool.and_eq_true, Bool.and_eq_true] at h
    · rcases List.mem_cons.1 hc with rfl | hc
      · exact .inr (.inr h.1.2)
      · exact ih h.2 hc
    · exact hno

theorem not_mem_isEncoded (h : isEncoded p s = true)
    (hc : c ≠ '%' ∧ Text.isHex c = false ∧ p c = false) : c ∉ s := by
  intro hm
  rcases mem_isEncoded h hm with he | he | he
  · exact hc.1 he
  · rw [hc.2.1] at he
    exact absurd he (by decide)
  · rw [hc.2.2] at he
    exact absurd he (by decide)

/-- Only the characters that occur have to be allowed. -/
theorem isEncoded_mono (h : isEncoded p s = true) (hpq : ∀ c ∈ s, p c = true → q c = true) :
    isEncoded q s = true := by
  induction s using isEncoded.induct with
  | case1 => rfl
  | case2 high low rest ih =>
    rw [isEncoded, Bool.and_eq_true] at h ⊢
    refine ⟨h.1, ih h.2 fun c hc => hpq c ?_⟩
    simp [hc]
  | case3 d rest hno ih =>
    rw [isEncoded, Bool.and_eq_true, Bool.and_eq_true] at h ⊢
    · refine ⟨⟨h.1.1, hpq d List.mem_cons_self h.1.2⟩, ?_⟩
      exact ih h.2 fun c hc => hpq c (List.mem_cons_of_mem d hc)
    all_goals exact hno

/-- No surrogate fits a query, nor anything that fits one. -/
theorem isScalar_of_isEncoded (h : isEncoded isQueryChar s = true) : s.isScalar = true := by
  refine Text.isScalar_iff.2 fun c hc => ?_
  rcases mem_isEncoded h hc with rfl | hhex | hchar
  · rfl
  · exact Percent.isSurrogate_of_isAscii (Text.isAscii_of_isHex hhex)
  · cases c with
    | char d => rfl
    | surrogate i =>
      have hno : isQueryChar (.surrogate i) = false := by
        simp [isQueryChar, isPathChar, isSegmentChar, isUserInfoChar, isNameChar, isUnreserved,
          isSubDelim, CodePoint.isAlphanum, CodePoint.isAlpha, CodePoint.isDigit,
          CodePoint.isSurrogate]
      exact absurd (hno.symm.trans hchar) Bool.false_ne_true

theorem isEncoded_append (hs : isEncoded p s = true) (ht : isEncoded p t = true) :
    isEncoded p (s ++ t) = true := by
  induction s using isEncoded.induct with
  | case1 => exact ht
  | case2 high low rest ih =>
    rw [isEncoded, Bool.and_eq_true] at hs
    rw [List.cons_append, List.cons_append, List.cons_append, isEncoded, hs.1, ih hs.2]
    rfl
  | case3 c rest hno ih =>
    rw [isEncoded, Bool.and_eq_true, Bool.and_eq_true, decide_eq_true_eq] at hs
    · rw [List.cons_append, isEncoded_cons hs.1.1, hs.1.2, ih hs.2]
      rfl
    · exact hno

/-- Replacing single characters by single characters keeps the triplets. -/
theorem isEncoded_map {f : CodePoint → CodePoint} (hpercent : f '%' = '%')
    (hhex : ∀ c, Text.isHex c = true → f c = c)
    (hp : ∀ c, p c = true → f c ≠ '%' ∧ q (f c) = true) (h : isEncoded p s = true) :
    isEncoded q (s.map f) = true := by
  induction s using isEncoded.induct with
  | case1 => rfl
  | case2 high low rest ih =>
    rw [isEncoded, Bool.and_eq_true, Bool.and_eq_true] at h
    obtain ⟨⟨hh, hl⟩, hrest⟩ := h
    rw [List.map_cons, List.map_cons, List.map_cons, hpercent, hhex high hh, hhex low hl,
      isEncoded, hh, hl, ih hrest]
    rfl
  | case3 c rest hno ih =>
    rw [isEncoded, Bool.and_eq_true, Bool.and_eq_true] at h
    · obtain ⟨hne, hq⟩ := hp c h.1.2
      rw [List.map_cons, isEncoded_cons hne, hq, ih h.2]
      rfl
    · exact hno

theorem isEncoded_intercalate {sep : CodePoint} (hne : sep ≠ '%') (hsep : p sep = true)
    {parts : List Text} (h : ∀ part ∈ parts, isEncoded p part = true) :
    isEncoded p ([sep].intercalate parts) = true := by
  have hseparator : isEncoded p [sep] = true := by
    rw [isEncoded_cons hne, hsep]
    rfl
  induction parts with
  | nil => rfl
  | cons part rest ih =>
    have hpart := h part List.mem_cons_self
    have hrest := ih fun t ht => h t (List.mem_cons_of_mem part ht)
    by_cases hr : rest = []
    · rw [hr, List.intercalate_singleton]
      exact hpart
    · rw [List.intercalate_cons_of_ne_nil hr]
      exact isEncoded_append (isEncoded_append hpart hseparator) hrest

theorem mem_isScheme (h : isScheme s = true) (hc : c ∈ s) : isSchemeChar c = true := by
  cases s with
  | nil => exact absurd hc List.not_mem_nil
  | cons e rest =>
    obtain ⟨he, hrest⟩ := Bool.and_eq_true_iff.1 h
    rcases List.mem_cons.1 hc with rfl | hc
    · rw [isSchemeChar, CodePoint.isAlphanum_of_isAlpha he]
      rfl
    · exact List.all_eq_true.1 hrest c hc

theorem not_mem_isScheme (h : isScheme s = true) (hc : isSchemeChar c = false) : c ∉ s :=
  fun hm => Bool.false_ne_true (hc.symm.trans (mem_isScheme h hm))

theorem isAscii_of_isScheme (h : isScheme s = true) : ∀ c ∈ s, Percent.isAscii c = true := by
  intro c hc
  have hchar := mem_isScheme h hc
  simp only [isSchemeChar, Bool.or_eq_true, decide_eq_true_eq] at hchar
  rcases hchar with ((hchar | rfl) | rfl) | rfl
  · exact isAscii_of_isAlphanum hchar
  all_goals rfl

theorem isPathChar_of_isScheme (h : isScheme s = true) (hc : c ∈ s) : isPathChar c = true :=
  forall_ascii (P := fun c => isSchemeChar c = true → isPathChar c = true) (by decide)
    (isAscii_of_isScheme h c hc) (mem_isScheme h hc)

theorem separated_of_isScheme (h : isScheme s = true) :
    s ≠ [] ∧ ∀ d ∈ s, Components.endsScheme d = false := by
  constructor
  · intro heq
    subst heq
    exact absurd h (by decide)
  · intro d hd
    refine Bool.eq_false_iff.2 fun hends => ?_
    have hno : isSchemeChar d = false := by
      simp only [Components.endsScheme, Bool.or_eq_true, decide_eq_true_eq] at hends
      rcases hends with ((rfl | rfl) | rfl) | rfl <;> decide
    exact not_mem_isScheme h hno hd

theorem fits_eq_true {c : Components} : fits c = true ↔
    (∀ n ∈ c.scheme, isScheme n = true ∧ (c.authority.isSome = true ∨ c.path ≠ [])) ∧
      (∀ a ∈ c.authority, (a ≠ [] ∨ c.path ≠ []) ∧ isAuthority a = true) ∧
        isEncoded isPathChar c.path = true ∧
          (∀ q ∈ c.query, isEncoded isQueryChar q = true) ∧
            ∀ f ∈ c.fragment, isEncoded isQueryChar f = true := by
  simp only [fits, Bool.and_eq_true, Option.all_eq_true, Bool.or_eq_true, decide_eq_true_eq,
    Option.mem_def, and_assoc]

end HttpUri.Grammar
