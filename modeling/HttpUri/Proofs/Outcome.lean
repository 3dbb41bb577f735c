import Mathlib.Data.List.Forall2

/-! Outcomes that are a value or a failure, taken apart. -/
namespace HttpUri.Outcome

variable {ε α β : Type}

theorem bind_eq_ok {x : Except ε α} {f : α → Except ε β} {b : β} :
    x >>= f = .ok b ↔ ∃ a, x = .ok a ∧ f a = .ok b := by
  cases x with
  | error e => simp [bind, Except.bind]
  | ok a => simp [bind, Except.bind]

theorem bind_congr {x : Except ε α} {f g : α → Except ε β} (h : ∀ a, x = .ok a → f a = g a) :
    x >>= f = x >>= g := by
  cases x with
  | error e => rfl
  | ok a => exact h a rfl

theorem map_eq_ok {x : Except ε α} {f : α → β} {b : β} :
    x.map f = .ok b ↔ ∃ a, x = .ok a ∧ f a = b := by
  cases x with
  | error e => simp [Except.map]
  | ok a => simp [Except.map]

theorem exists_of_isOk {x : Except ε α} (h : x.isOk = true) : ∃ a, x = .ok a := by
  cases x with
  | error e => exact absurd h Bool.false_ne_true
  | ok a => exact ⟨a, rfl⟩

theorem toOption_map_eq_some {x : Except ε α} {f : α → β} {b : β} :
    x.toOption.map f = some b ↔ ∃ a, x = .ok a ∧ f a = b := by
  cases x with
  | error e => simp [Except.toOption]
  | ok a => simp [Except.toOption]

theorem mapM_eq_ok {f : α → Except ε β} {as : List α} {bs : List β} :
    as.mapM f = .ok bs ↔ List.Forall₂ (fun a b => f a = .ok b) as bs := by
  induction as generalizing bs with
  | nil => simp [pure, Except.pure, eq_comm]
  | cons a rest ih =>
    rw [List.mapM_cons]
    constructor
    · intro h
      obtain ⟨b, hb, h⟩ := bind_eq_ok.1 h
      obtain ⟨tail, ht, h⟩ := bind_eq_ok.1 h
      have heq : b :: tail = bs := Except.ok.inj h
      subst heq
      exact .cons hb (ih.1 ht)
    · intro hm
      rcases hm with _ | ⟨hb, ht⟩
      exact bind_eq_ok.2 ⟨_, hb, bind_eq_ok.2 ⟨_, ih.2 ht, rfl⟩⟩

theorem exists_of_mem_mapM {f : α → Except ε β} {as : List α} {bs : List β}
    (h : as.mapM f = .ok bs) {b : β} (hb : b ∈ bs) : ∃ a ∈ as, f a = .ok b := by
  have hall := mapM_eq_ok.1 h
  clear h
  induction hall with
  | nil => exact absurd hb List.not_mem_nil
  | @cons a c as bs hc _ ih =>
    rcases List.mem_cons.1 hb with rfl | hb
    · exact ⟨a, List.mem_cons_self, hc⟩
    · obtain ⟨d, hd, hf⟩ := ih hb
      exact ⟨d, List.mem_cons_of_mem a hd, hf⟩

theorem bind_eq_error {x : Except ε α} {f : α → Except ε β} {e : ε} :
    x >>= f = .error e ↔ x = .error e ∨ ∃ a, x = .ok a ∧ f a = .error e := by
  cases x with
  | error d => simp [bind, Except.bind]
  | ok a => simp [bind, Except.bind]

theorem map_eq_error {x : Except ε α} {f : α → β} {e : ε} :
    x.map f = .error e ↔ x = .error e := by
  cases x with
  | error d => simp [Except.map]
  | ok a => simp [Except.map]

theorem bind_pure_eq_error {x : Except ε α} {f : α → β} {e : ε} :
    (x >>= fun a => pure (f a)) = .error e ↔ x = .error e := by
  rw [bind_eq_error]
  refine or_iff_left ?_
  rintro ⟨a, -, h⟩
  exact nomatch h

/-- A list fails as its first element that fails. -/
theorem mapM_eq_error {f : α → Except ε β} {as : List α} {e : ε} : as.mapM f = .error e ↔
    ∃ before a after, as = before ++ a :: after ∧ (∀ b ∈ before, ∃ x, f b = .ok x) ∧
      f a = .error e := by
  induction as with
  | nil => simp [pure, Except.pure]
  | cons a rest ih =>
    rw [List.mapM_cons]
    constructor
    · intro h
      rcases bind_eq_error.1 h with ha | ⟨x, hx, h⟩
      · exact ⟨[], a, rest, rfl, List.forall_mem_nil _, ha⟩
      · rcases bind_eq_error.1 h with hrest | ⟨xs, -, h⟩
        · obtain ⟨before, b, after, rfl, hbefore, hb⟩ := ih.1 hrest
          exact ⟨a :: before, b, after, rfl, List.forall_mem_cons.2 ⟨⟨x, hx⟩, hbefore⟩, hb⟩
        · exact nomatch h
    · intro h
      obtain ⟨before, b, after, hsplit, hbefore, hb⟩ := h
      cases before with
      | nil =>
        obtain ⟨rfl, -⟩ := List.cons.inj hsplit
        exact bind_eq_error.2 (.inl hb)
      | cons c before =>
        obtain ⟨rfl, hrest⟩ := List.cons.inj hsplit
        obtain ⟨⟨x, hx⟩, hbefore⟩ := List.forall_mem_cons.1 hbefore
        have htail := ih.2 ⟨before, b, after, hrest, hbefore, hb⟩
        exact bind_eq_error.2 (.inr ⟨x, hx, bind_eq_error.2 (.inl htail)⟩)

theorem exists_mapM_iff {f : α → Except ε β} {as : List α} :
    (∃ bs, as.mapM f = .ok bs) ↔ ∀ a ∈ as, ∃ b, f a = .ok b := by
  induction as with
  | nil => exact ⟨fun _ a ha => absurd ha List.not_mem_nil, fun _ => ⟨[], rfl⟩⟩
  | cons a rest ih =>
    rw [List.forall_mem_cons, ← ih, List.mapM_cons]
    constructor
    · intro h
      obtain ⟨bs, h⟩ := h
      obtain ⟨b, hb, h⟩ := bind_eq_ok.1 h
      obtain ⟨tail, ht, -⟩ := bind_eq_ok.1 h
      exact ⟨⟨b, hb⟩, tail, ht⟩
    · intro h
      obtain ⟨⟨b, hb⟩, tail, ht⟩ := h
      exact ⟨b :: tail, bind_eq_ok.2 ⟨b, hb, bind_eq_ok.2 ⟨tail, ht, rfl⟩⟩⟩

/-- If the elements have one way to fail, the list fails in that way if one of them does. -/
theorem mapM_eq_error_of_unique {f : α → Except ε β} {P : α → Prop} {d : ε}
    (hf : ∀ a e, f a = .error e ↔ P a ∧ e = d) {as : List α} {e : ε} :
    as.mapM f = .error e ↔ (∃ a ∈ as, P a) ∧ e = d := by
  constructor
  · intro h
    obtain ⟨before, a, after, rfl, -, ha⟩ := mapM_eq_error.1 h
    obtain ⟨hP, rfl⟩ := (hf a e).1 ha
    exact ⟨⟨a, by simp, hP⟩, rfl⟩
  · intro h
    obtain ⟨⟨a, hmem, hP⟩, rfl⟩ := h
    cases hall : as.mapM f with
    | ok bs =>
      obtain ⟨b, hb⟩ := exists_mapM_iff.1 ⟨bs, hall⟩ a hmem
      exact nomatch hb.symm.trans ((hf a e).2 ⟨hP, rfl⟩)
    | error c =>
      obtain ⟨before, b, after, -, -, hb⟩ := mapM_eq_error.1 hall
      rw [((hf b c).1 hb).2]

end HttpUri.Outcome
