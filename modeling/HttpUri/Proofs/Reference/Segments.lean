import HttpUri.Proofs.Reference.Abnf
import HttpUri.Proofs.Reference.Encoded

/-! The rules for encoded text, read as languages. -/
namespace HttpUri.Abnf
open scoped Computability

variable {p q : CodePoint → Bool} {c : CodePoint} {s t : Text} {l : Language CodePoint}

theorem mem_oneOf : s ∈ oneOf p ↔ ∃ c, p c = true ∧ s = [c] := Iff.rfl

theorem mem_sign_mul : s ∈ sign c * l ↔ ∃ t ∈ l, s = c :: t := by
  rw [Language.mem_mul]
  constructor
  · intro h
    obtain ⟨_, rfl, t, ht, rfl⟩ := h
    exact ⟨t, ht, rfl⟩
  · intro h
    obtain ⟨t, ht, rfl⟩ := h
    exact ⟨[c], rfl, t, ht, rfl⟩

theorem cons_mem_sign_mul (c : CodePoint) (h : t ∈ l) : c :: t ∈ sign c * l :=
  mem_sign_mul.2 ⟨t, h, rfl⟩

theorem mem_mul_sign : s ∈ l * sign c ↔ ∃ t ∈ l, s = t ++ [c] := by
  rw [Language.mem_mul]
  constructor
  · intro h
    obtain ⟨t, ht, _, rfl, rfl⟩ := h
    exact ⟨t, ht, rfl⟩
  · intro h
    obtain ⟨t, ht, rfl⟩ := h
    exact ⟨t, ht, [c], rfl, rfl⟩

theorem mem_optional : s ∈ optional l ↔ s = [] ∨ s ∈ l := by
  unfold optional
  rw [Language.mem_add, Language.mem_one]

/-- An optional part behind its sign, where `f` writes the part with the sign. -/
theorem mem_optional_sign {f : Option Text → Text} (hnone : f none = [])
    (hsome : ∀ t, f (some t) = c :: t) :
    s ∈ optional (sign c * l) ↔ ∃ t, s = f t ∧ ∀ u ∈ t, u ∈ l := by
  rw [mem_optional, mem_sign_mul]
  constructor
  · intro h
    rcases h with rfl | ⟨t, ht, rfl⟩
    · exact ⟨none, hnone.symm, fun u hu => nomatch hu⟩
    · exact ⟨some t, (hsome t).symm, fun u hu => Option.some.inj hu ▸ ht⟩
  · intro h
    obtain ⟨t | t, rfl, ht⟩ := h
    · exact .inl hnone
    · exact .inr ⟨t, ht t rfl, hsome t⟩

theorem mem_oneOf_mul : s ∈ oneOf p * l ↔ ∃ c t, p c = true ∧ t ∈ l ∧ s = c :: t := by
  rw [Language.mem_mul]
  constructor
  · intro h
    obtain ⟨_, ⟨c, hc, rfl⟩, t, ht, rfl⟩ := h
    exact ⟨c, t, hc, ht, rfl⟩
  · intro h
    obtain ⟨c, t, hc, ht, rfl⟩ := h
    exact ⟨[c], ⟨c, hc, rfl⟩, t, ht, rfl⟩

theorem oneOf_add_oneOf : oneOf p + oneOf q = oneOf fun c => p c || q c := by
  ext s
  simp only [Language.mem_add, mem_oneOf, Bool.or_eq_true]
  constructor
  · intro h
    rcases h with ⟨c, hc, rfl⟩ | ⟨c, hc, rfl⟩
    · exact ⟨c, .inl hc, rfl⟩
    · exact ⟨c, .inr hc, rfl⟩
  · intro h
    obtain ⟨c, hc | hc, rfl⟩ := h
    · exact .inl ⟨c, hc, rfl⟩
    · exact .inr ⟨c, hc, rfl⟩

theorem sign_eq_oneOf (c : CodePoint) : sign c = oneOf (decide <| · = c) := by
  ext s
  rw [mem_oneOf]
  constructor
  · intro heq
    subst heq
    exact ⟨c, decide_eq_true rfl, rfl⟩
  · intro h
    obtain ⟨d, hd, rfl⟩ := h
    rw [of_decide_eq_true hd]
    rfl

theorem mem_kstar_iff : s ∈ l∗ ↔ s = [] ∨ s ∈ l * l∗ := by
  rw [← Language.mem_one, ← Language.mem_add, one_add_mul_kstar]

theorem kstar_induction {P : Text → Prop} (nil : P [])
    (append : ∀ u ∈ l, ∀ t, P t → P (u ++ t)) (h : s ∈ l∗) : P s := by
  obtain ⟨parts, rfl, hparts⟩ := Language.mem_kstar.1 h
  clear h
  induction parts with
  | nil => exact nil
  | cons u rest ih =>
    rw [List.flatten_cons]
    refine append u (hparts u List.mem_cons_self) _ (ih ?_)
    exact fun v hv => hparts v (List.mem_cons_of_mem u hv)

theorem mem_kstar_oneOf : s ∈ (oneOf p)∗ ↔ s.all p = true := by
  constructor
  · refine kstar_induction (P := fun s => s.all p = true) rfl ?_
    rintro _ ⟨c, hc, rfl⟩ t ht
    exact List.all_cons.trans (Bool.and_eq_true_iff.2 ⟨hc, ht⟩)
  · intro h
    induction s with
    | nil => exact Language.nil_mem_kstar _
    | cons c rest ih =>
      rw [List.all_cons, Bool.and_eq_true] at h
      exact mem_kstar_iff.2 (.inr (mem_oneOf_mul.2 ⟨c, rest, h.1, ih h.2, rfl⟩))

theorem hexdig_eq : hexdig = oneOf Text.isHex := by
  rw [hexdig, digit, oneOf_add_oneOf]
  congr 1
  funext c
  have hdigit : c.isDigit = decide ('0' ≤ c ∧ c ≤ '9') := by
    rw [Bool.eq_iff_iff, CodePoint.isDigit_iff, decide_eq_true_eq]
  rw [hdigit, Text.isHex, Text.hexValue?]
  by_cases h9 : '0' ≤ c ∧ c ≤ '9'
  · rw [if_pos h9, decide_eq_true h9]
    rfl
  · rw [if_neg h9, decide_eq_false h9, Bool.false_or, Bool.or_comm]
    by_cases hf : 'a' ≤ c ∧ c ≤ 'f'
    · rw [if_pos hf, decide_eq_true hf]
      rfl
    · rw [if_neg hf, decide_eq_false hf, Bool.false_or]
      by_cases hF : 'A' ≤ c ∧ c ≤ 'F'
      · rw [if_pos hF, decide_eq_true hF]
        rfl
      · rw [if_neg hF, decide_eq_false hF]
        rfl

theorem mem_pctEncoded_mul : s ∈ pctEncoded * l ↔
    ∃ high low t, Text.isHex high = true ∧ Text.isHex low = true ∧ t ∈ l ∧
      s = .char '%' :: high :: low :: t := by
  unfold pctEncoded
  rw [hexdig_eq, mul_assoc, mul_assoc, mem_sign_mul]
  constructor
  · intro h
    obtain ⟨u, hu, rfl⟩ := h
    obtain ⟨high, v, hh, hv, rfl⟩ := mem_oneOf_mul.1 hu
    obtain ⟨low, t, hl, ht, rfl⟩ := mem_oneOf_mul.1 hv
    exact ⟨high, low, t, hh, hl, ht, rfl⟩
  · intro h
    obtain ⟨high, low, t, hh, hl, ht, rfl⟩ := h
    refine ⟨high :: low :: t, ?_, rfl⟩
    exact mem_oneOf_mul.2 ⟨high, low :: t, hh, mem_oneOf_mul.2 ⟨low, t, hl, ht, rfl⟩, rfl⟩

theorem mem_add_kstar {l m : Language CodePoint} :
    s ∈ (l + m)∗ ↔ s = [] ∨ s ∈ l * (l + m)∗ ∨ s ∈ m * (l + m)∗ := by
  rw [mem_kstar_iff, add_mul, Language.mem_add]

theorem mem_encoded (hp : p '%' = false) :
    s ∈ (oneOf p + pctEncoded)∗ ↔ Grammar.isEncoded p s = true := by
  constructor
  · refine kstar_induction (P := fun s => Grammar.isEncoded p s = true) rfl ?_
    intro u hu t ht
    have hut : u ++ t ∈ oneOf p * {t} + pctEncoded * {t} := by
      rw [← add_mul]
      exact Language.append_mem_mul hu rfl
    rcases hut with h | h
    · obtain ⟨c, v, hc, rfl, hv⟩ := mem_oneOf_mul.1 h
      have hne : c ≠ '%' := by
        intro heq
        subst heq
        rw [hp] at hc
        exact absurd hc (by decide)
      rw [hv, Grammar.isEncoded_cons hne, hc, ht]
      rfl
    · obtain ⟨high, low, v, hh, hl, rfl, hv⟩ := mem_pctEncoded_mul.1 h
      rw [hv, Grammar.isEncoded, hh, hl, ht]
      rfl
  · intro h
    induction s using Grammar.isEncoded.induct with
    | case1 => exact Language.nil_mem_kstar _
    | case2 high low rest ih =>
      rw [Grammar.isEncoded, Bool.and_eq_true, Bool.and_eq_true] at h
      obtain ⟨⟨hh, hl⟩, hrest⟩ := h
      have hmem := mem_pctEncoded_mul.2 ⟨high, low, rest, hh, hl, ih hrest, rfl⟩
      exact mem_add_kstar.2 (.inr (.inr hmem))
    | case3 c rest hno ih =>
      rw [Grammar.isEncoded, Bool.and_eq_true, Bool.and_eq_true] at h
      · obtain ⟨⟨-, hc⟩, hrest⟩ := h
        have hmem := mem_oneOf_mul.2 ⟨c, rest, hc, ih hrest, rfl⟩
        exact mem_add_kstar.2 (.inr (.inl hmem))
      · exact hno

theorem unreserved_eq : unreserved = oneOf Grammar.isUnreserved := by
  simp only [unreserved, alpha, digit, other, sign_eq_oneOf, oneOf_add_oneOf]
  congr 1
  funext c
  have hother : (decide (0xA1 ≤ c.toNat ∧ c.toNat ≤ 0xD7FF) ||
      decide (0xE000 ≤ c.toNat ∧ c.toNat ≤ 0x10FFFF)) =
        (decide (0xA1 ≤ c.toNat) && !c.isSurrogate) := by
    have hrange := c.isSurrogate_iff
    have hlt := c.toNat_lt
    rw [← Bool.decide_or, Bool.eq_iff_iff, Bool.and_eq_true, Bool.not_eq_true', Bool.eq_false_iff,
      ne_eq, hrange, decide_eq_true_eq, decide_eq_true_eq]
    omega
  rw [hother]
  rfl

theorem subDelims_eq : subDelims = oneOf Grammar.isSubDelim := by
  unfold subDelims
  congr 1
  funext c
  simp [Grammar.isSubDelim, Bool.or_assoc, String.points]

theorem nameChar_eq : unreserved + pctEncoded + subDelims =
    oneOf Grammar.isNameChar + pctEncoded := by
  rw [unreserved_eq, subDelims_eq, add_right_comm, oneOf_add_oneOf]
  rfl

theorem userInfoChar_eq : unreserved + pctEncoded + subDelims + sign ':' =
    oneOf Grammar.isUserInfoChar + pctEncoded := by
  rw [nameChar_eq, sign_eq_oneOf, add_right_comm, oneOf_add_oneOf]
  rfl

theorem pchar_eq : pchar = oneOf Grammar.isSegmentChar + pctEncoded := by
  unfold pchar
  rw [userInfoChar_eq, sign_eq_oneOf, add_right_comm, oneOf_add_oneOf]
  rfl

theorem pathChar_eq : pchar + sign '/' = oneOf Grammar.isPathChar + pctEncoded := by
  rw [pchar_eq, sign_eq_oneOf, add_right_comm, oneOf_add_oneOf]
  rfl

theorem queryChar_eq : pchar + sign '/' + sign '?' = oneOf Grammar.isQueryChar + pctEncoded := by
  rw [pathChar_eq, sign_eq_oneOf, add_right_comm, oneOf_add_oneOf]
  rfl

@[simp] theorem mem_userinfo : s ∈ userinfo ↔
    Grammar.isEncoded Grammar.isUserInfoChar s = true := by
  unfold userinfo
  rw [userInfoChar_eq, mem_encoded rfl]

@[simp] theorem mem_regName : s ∈ regName ↔ Grammar.isEncoded Grammar.isNameChar s = true := by
  unfold regName
  rw [nameChar_eq, mem_encoded rfl]

@[simp] theorem mem_segment : s ∈ segment ↔ Grammar.isEncoded Grammar.isSegmentChar s = true := by
  unfold segment
  rw [pchar_eq, mem_encoded rfl]

@[simp] theorem mem_query : s ∈ query ↔ Grammar.isEncoded Grammar.isQueryChar s = true := by
  unfold query
  rw [queryChar_eq, mem_encoded rfl]

@[simp] theorem mem_fragment : s ∈ fragment ↔
    Grammar.isEncoded Grammar.isQueryChar s = true := mem_query

@[simp] theorem mem_port : s ∈ port ↔ s.all CodePoint.isDigit = true := mem_kstar_oneOf

@[simp] theorem mem_scheme : s ∈ scheme ↔ Grammar.isScheme s = true := by
  have hclass : alpha + digit + sign '+' + sign '-' + sign '.' = oneOf Grammar.isSchemeChar := by
    rw [add_right_comm _ (sign '-')]
    simp only [alpha, digit, sign_eq_oneOf, oneOf_add_oneOf]
    rfl
  unfold scheme
  rw [hclass, alpha, mem_oneOf_mul]
  constructor
  · intro hm
    obtain ⟨c, t, hc, ht, rfl⟩ := hm
    exact Bool.and_eq_true_iff.2 ⟨hc, mem_kstar_oneOf.1 ht⟩
  · intro h
    cases s with
    | nil => exact nomatch h
    | cons c t =>
      obtain ⟨hc, ht⟩ := Bool.and_eq_true_iff.1 h
      exact ⟨c, t, hc, mem_kstar_oneOf.2 ht, rfl⟩

end HttpUri.Abnf
