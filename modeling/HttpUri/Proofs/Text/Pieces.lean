import HttpUri.Text.Basic

/-! What texts hold that are put together of pieces or cut into them. -/
namespace HttpUri.Text

theorem not_mem_of_forall {p : CodePoint → Bool} {s : Text} {c : CodePoint}
    (hs : ∀ d ∈ s, p d = true)
    (hc : p c = false) : c ∉ s := by
  intro hm
  have hkind := hs c hm
  rw [hc] at hkind
  exact absurd hkind (by decide)

theorem not_mem_of_free {p : CodePoint → Bool} {s : Text} {c : CodePoint}
    (hs : ∀ d ∈ s, p d = false)
    (hc : p c = true) : c ∉ s := by
  intro hm
  have hfree := hs c hm
  rw [hc] at hfree
  exact absurd hfree (by decide)

/-- The last of the same characters is in one place. -/
theorem append_cons_inj {a b s t : Text} {c : CodePoint} (h : a ++ c :: s = b ++ c :: t)
    (hs : c ∉ s)
    (ht : c ∉ t) : a = b ∧ s = t := by
  have hcut : cutLast c (a ++ c :: s) = some (b, t) := cutLast_eq_some.2 ⟨h, ht⟩
  rw [cutLast_eq_some.2 ⟨rfl, hs⟩] at hcut
  exact Prod.mk.inj (Option.some.inj hcut)

/-- The first of the same characters is in one place. -/
theorem append_cons_inj_of_first {a b s t : Text} {c : CodePoint} (h : a ++ c :: s = b ++ c :: t)
    (ha : c ∉ a) (hb : c ∉ b) : a = b ∧ s = t := by
  have hcut : cutFirst c (a ++ c :: s) = some (b, t) := cutFirst_eq_some.2 ⟨h, hb⟩
  rw [cutFirst_eq_some.2 ⟨rfl, ha⟩] at hcut
  exact Prod.mk.inj (Option.some.inj hcut)

theorem head?_ne_of_append {s t : Text} {c : CodePoint} (h : (s ++ t).head? ≠ some c) :
    s.head? ≠ some c := by
  intro hs
  rw [List.head?_append, hs] at h
  exact h rfl

/-- A part that `f` writes behind its sign. -/
theorem not_mem_signed {f : Option Text → Text} {sign c : CodePoint} {o : Option Text}
    (hnone : f none = []) (hsome : ∀ t, f (some t) = sign :: t) (hc : c ≠ sign)
    (h : ∀ t ∈ o, c ∉ t) : c ∉ f o := by
  cases o with
  | none =>
    rw [hnone]
    exact List.not_mem_nil
  | some t =>
    rw [hsome, List.mem_cons, not_or]
    exact ⟨hc, h t rfl⟩

theorem mem_intercalate {c sep : CodePoint} {parts : List Text} (h : c ∈ [sep].intercalate parts) :
    c = sep ∨ ∃ part ∈ parts, c ∈ part := by
  induction parts with
  | nil => exact absurd h List.not_mem_nil
  | cons part rest ih =>
    by_cases hr : rest = []
    · subst hr
      rw [List.intercalate_singleton] at h
      exact .inr ⟨part, List.mem_cons_self, h⟩
    · rw [List.intercalate_cons_of_ne_nil hr] at h
      simp only [List.mem_append, List.mem_singleton] at h
      rcases h with (h | h) | h
      · exact .inr ⟨part, List.mem_cons_self, h⟩
      · exact .inl h
      · rcases ih h with h | ⟨p, hp, hc⟩
        · exact .inl h
        · exact .inr ⟨p, List.mem_cons_of_mem part hp, hc⟩

theorem mem_splitOn (sep : CodePoint) {c : CodePoint} {s : Text} (h : c ∈ s) :
    c = sep ∨ ∃ part ∈ s.splitOn sep, c ∈ part := by
  have hs : [sep].intercalate (s.splitOn sep) = s := List.intercalate_splitOn sep
  rw [← hs] at h
  exact mem_intercalate h

theorem mem_intercalate_of_mem {sep part : Text} {c : CodePoint} {parts : List Text}
    (h : part ∈ parts)
    (hc : c ∈ part) : c ∈ sep.intercalate parts := by
  induction parts with
  | nil => exact absurd h List.not_mem_nil
  | cons first rest ih =>
    rcases List.mem_cons.1 h with rfl | hrest
    · by_cases hr : rest = []
      · rw [hr, List.intercalate_singleton]
        exact hc
      · rw [List.intercalate_cons_of_ne_nil hr]
        exact List.mem_append_left _ (List.mem_append_left _ hc)
    · rw [List.intercalate_cons_of_ne_nil (List.ne_nil_of_mem hrest)]
      exact List.mem_append_right _ (ih hrest)

theorem mem_of_mem_splitOn {sep c : CodePoint} {s part : Text} (h : part ∈ s.splitOn sep)
    (hc : c ∈ part) : c ∈ s := by
  have hs : [sep].intercalate (s.splitOn sep) = s := List.intercalate_splitOn sep
  rw [← hs]
  exact mem_intercalate_of_mem h hc

theorem cutAt_eq_some {mark s a b : Text} (h : cutAt mark s = some (a, b)) :
    s = a ++ (mark ++ b) := by
  induction s generalizing a with
  | nil => exact nomatch h
  | cons d rest ih =>
    unfold cutAt at h
    split at h
    · next tail htail =>
      obtain ⟨rfl, rfl⟩ := Prod.mk.inj (Option.some.inj h)
      have hs : d :: rest = mark ++ tail := after?_eq_some.1 htail
      exact hs
    · obtain ⟨⟨x, y⟩, hcut, hxy⟩ := Option.map_eq_some_iff.1 h
      obtain ⟨rfl, rfl⟩ := Prod.mk.inj hxy
      rw [ih hcut]
      rfl

theorem cutAt_append {mark a b : Text} (hmark : mark ≠ [])
    (h : ∀ y, y ≠ [] → y <:+ a → ¬ mark <+: y ++ (mark ++ b)) :
    cutAt mark (a ++ (mark ++ b)) = some (a, b) := by
  induction a with
  | nil =>
    obtain ⟨m, rest, rfl⟩ := List.exists_cons_of_ne_nil hmark
    have hafter : after? (m :: rest) (m :: (rest ++ b)) = some b := after?_eq_some.2 rfl
    change cutAt (m :: rest) (m :: (rest ++ b)) = some ([], b)
    rw [cutAt, hafter]
  | cons d a ih =>
    have hafter : after? mark (d :: (a ++ (mark ++ b))) = none := by
      refine Option.eq_none_iff_forall_ne_some.2 fun tail htail => ?_
      have hsplit : d :: (a ++ (mark ++ b)) = mark ++ tail := after?_eq_some.1 htail
      exact h (d :: a) (List.cons_ne_nil d a) List.suffix_rfl ⟨tail, hsplit.symm⟩
    have hrest : cutAt mark (a ++ (mark ++ b)) = some (a, b) :=
      ih fun y hne hy => h y hne (hy.trans (List.suffix_cons d a))
    change cutAt mark (d :: (a ++ (mark ++ b))) = some (d :: a, b)
    rw [cutAt, hafter, hrest]
    rfl

end HttpUri.Text
