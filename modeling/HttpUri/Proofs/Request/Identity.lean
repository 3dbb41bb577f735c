import HttpUri.Proofs.Request.Ledger

/-! Which of the URLs handed out are one and the same. A URL in store stays until a setter of the
target completes, and whatever is stored after that is a new one. -/
namespace HttpUri.Request
variable {r : Request}

/-- What an operation can do to the store: nothing, or drop the URL as a component is assigned, or
put in the one that the components make up where there is none. -/
theorem perform_cases [Codecs] (r : Request) (op : Operation) :
    ((op.assigns = true → (r.perform op).1.isOk = false) ∧ (r.perform op).2.cache = r.cache ∧
      (r.perform op).2.compositions = r.compositions) ∨
    (op.assigns = true ∧ (r.perform op).1.isOk = true ∧
      (r.perform op).2.cache = r.cache.invalidate ∧
      (r.perform op).2.compositions = r.compositions) ∨
    (op.assigns = false ∧ r.cache.current = none ∧
      ∃ url, r.compose = .ok url ∧ (r.perform op).2 = r.store url) := by
  cases op with
  | setScheme | setAuthority | setPath | setParameters => exact .inr (.inl ⟨rfl, rfl, rfl, rfl⟩)
  | setCharset | setVersion | editParameters | editHeaders => exact .inl ⟨nofun, rfl, rfl⟩
  | setQueryString raw =>
    cases raw with
    | none => exact .inr (.inl ⟨rfl, rfl, rfl, rfl⟩)
    | some raw =>
      rw [perform_setQueryString]
      cases Query.parse raw r.charset with
      | error e => exact .inl ⟨fun _ => rfl, rfl, rfl⟩
      | ok params => exact .inr (.inl ⟨rfl, rfl, rfl, rfl⟩)
  | addField name value =>
    rw [perform_addField]
    cases makeField name value <;> exact .inl ⟨nofun, rfl, rfl⟩
  | setField name value =>
    rw [perform_setField]
    cases makeField name value <;> exact .inl ⟨nofun, rfl, rfl⟩
  | read g =>
    rw [perform_read]
    exact .inl ⟨nofun, rfl, rfl⟩
  | getUri =>
    rw [perform_getUri]
    cases hc : r.cache.current with
    | some c => exact .inl ⟨nofun, rfl, rfl⟩
    | none =>
      cases r.compose with
      | error e => exact .inl ⟨nofun, rfl, rfl⟩
      | ok url => exact .inr (.inr ⟨rfl, rfl, url, rfl, rfl⟩)

theorem assignsDuring_cons [Codecs] {op : Operation} {rest : List Operation} :
    r.AssignsDuring (op :: rest) ↔
      (op.assigns = true ∧ (r.perform op).1.isOk = true) ∨ (r.perform op).2.AssignsDuring rest := by
  constructor
  · intro hx
    obtain ⟨before, mid, later, h, hm⟩ := hx
    cases before with
    | nil =>
      obtain ⟨rfl, -⟩ := List.cons.inj h
      exact .inl hm
    | cons first before =>
      obtain ⟨rfl, rfl⟩ := List.cons.inj h
      exact .inr ⟨before, mid, later, rfl, hm⟩
  · intro hx
    rcases hx with hop | ⟨before, mid, later, rfl, hm⟩
    · exact ⟨[], op, rest, rfl, hop⟩
    · exact ⟨op :: before, mid, later, rfl, hm⟩

theorem not_assignsDuring_nil [Codecs] : ¬ r.AssignsDuring [] := by
  intro hx
  obtain ⟨before, op, later, h, -⟩ := hx
  exact absurd h.symm (by simp)

@[simp] theorem run_append [Codecs] (r : Request) (before after : List Operation) :
    r.run (before ++ after) = (r.run before).run after := List.foldl_append

theorem assignsDuring_concat [Codecs] {ops : List Operation} {op : Operation} :
    r.AssignsDuring (ops ++ [op]) ↔ r.AssignsDuring ops ∨
      (op.assigns = true ∧ ((r.run ops).perform op).1.isOk = true) := by
  induction ops generalizing r with
  | nil =>
    rw [List.nil_append, assignsDuring_cons, or_comm]
    exact or_congr_left (iff_of_false not_assignsDuring_nil not_assignsDuring_nil)
  | cons first rest ih =>
    rw [List.cons_append, assignsDuring_cons, ih, assignsDuring_cons, or_assoc]
    rfl

theorem current_run_of_not_assigned [Codecs] {c : Composed} (h : r.cache.current = some c)
    {ops : List Operation} (hops : ¬r.AssignsDuring ops) :
    (r.run ops).cache.current = some c := by
  induction ops generalizing r with
  | nil => exact h
  | cons op rest ih =>
    rw [assignsDuring_cons, not_or] at hops
    refine ih ?_ hops.2
    rcases perform_cases r op with ⟨-, hc, -⟩ | ⟨ha, hok, -⟩ | ⟨-, hn, -⟩
    · rw [hc]
      exact h
    · exact absurd ⟨ha, hok⟩ hops.1
    · exact nomatch h.symm.trans hn

def Recent (n : Nat) (r : Request) : Prop :=
  n ≤ r.compositions ∧ ∀ c, r.cache.current = some c → n ≤ c.serial

theorem Recent.perform [Codecs] {n : Nat} (h : Recent n r) (op : Operation) :
    Recent n (r.perform op).2 := by
  rcases perform_cases r op with ⟨-, hc, hn⟩ | ⟨-, -, hc, hn⟩ | ⟨-, -, url, -, hs⟩
  · exact ⟨hn ▸ h.1, hc ▸ h.2⟩
  · exact ⟨hn ▸ h.1, hc ▸ nofun⟩
  · rw [hs]
    refine ⟨Nat.le_succ_of_le h.1, fun c hc => ?_⟩
    have heq : ⟨url, r.compositions⟩ = c := Option.some.inj hc
    subst heq
    exact h.1

theorem Recent.run [Codecs] {n : Nat} (h : Recent n r) (ops : List Operation) :
    Recent n (r.run ops) := by
  induction ops generalizing r with
  | nil => exact h
  | cons op rest ih => exact ih (h.perform op)

theorem recent_run_of_assigned [Codecs] {n : Nat} (hn : n ≤ r.compositions) {ops : List Operation}
    (hops : r.AssignsDuring ops) : Recent n (r.run ops) := by
  induction ops generalizing r with
  | nil => exact absurd hops not_assignsDuring_nil
  | cons op rest ih =>
    rcases perform_cases r op with ⟨ha, -, hc⟩ | ⟨-, -, hc, hm⟩ | ⟨ha, -, url, -, hs⟩
    · rcases assignsDuring_cons.1 hops with ⟨hop, hok⟩ | hrest
      · exact absurd (ha hop) (by simp [hok])
      · exact ih (hc ▸ hn) hrest
    · have hr : Recent n (r.perform op).2 := ⟨hm ▸ hn, hc ▸ nofun⟩
      exact hr.run rest
    · rcases assignsDuring_cons.1 hops with ⟨hop, -⟩ | hrest
      · exact nomatch ha.symm.trans hop
      · have hm : n ≤ (r.perform op).2.compositions := by
          rw [hs]
          exact Nat.le_succ_of_le hn
        exact ih hm hrest

theorem getUri_answer [Codecs] {c : Composed} (h : (r.perform .getUri).1 = .ok (.url c)) :
    (r.perform .getUri).2.cache.current = some c ∧
      (r.cache.current = some c ∨ r.cache.current = none ∧ c.serial = r.compositions) := by
  rw [perform_getUri] at h ⊢
  cases hc : r.cache.current with
  | some d =>
    rw [hc] at h
    have heq : d = c := by simpa using h
    subst heq
    exact ⟨hc, .inl rfl⟩
  | none =>
    rw [hc] at h
    cases hu : r.compose with
    | error e =>
      rw [hu] at h
      exact nomatch h
    | ok url =>
      rw [hu] at h
      have heq : ⟨url, r.compositions⟩ = c := by simpa using h
      subst heq
      exact ⟨rfl, .inr ⟨rfl, rfl⟩⟩

end HttpUri.Request
