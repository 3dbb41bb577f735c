import HttpUri.Proofs.Request.Refinement

/-! The URL in store is the one that composing would give, as long as no component changes behind
the back of the store. -/
namespace HttpUri.Request
variable {r : Request}

/-- The operations that change what a URL is composed of and leave the store as it is. -/
def Operation.bypasses : Operation → Bool
  | .setCharset _ | .editParameters _ => true
  | _ => false

@[simp] theorem toMessage_getUri [Codecs] (r : Request) :
    (r.perform .getUri).2.toMessage = r.toMessage := by
  rw [perform_getUri]
  cases r.cache.current with
  | some c => rfl
  | none => cases r.compose <;> rfl

def Operation.assignsCharset : Operation → Bool
  | .setCharset _ => true
  | _ => false

/-- The operation changes the list of parameters in place. -/
def Operation.editsParameters : Operation → Bool
  | .editParameters _ => true
  | _ => false

theorem Operation.bypasses_eq_false {op : Operation} :
    op.bypasses = false ↔ op.assignsCharset = false ∧ op.editsParameters = false := by
  cases op <;> simp [bypasses, assignsCharset, editsParameters]

/-- What an operation can do to what a request says: assign components of the target, assign the
charset, edit the parameters in place, or change nothing but version and header fields. -/
theorem message_cases [Codecs] (r : Request) (op : Operation) :
    (op.assigns = true ∧ (r.perform op).1.isOk = true ∧ ∃ scheme authority path parameters,
      (r.perform op).2.toMessage = { r.toMessage with scheme, authority, path, parameters }) ∨
    (op.assignsCharset = true ∧
      ∃ charset, (r.perform op).2.toMessage = { r.toMessage with charset }) ∨
    (op.editsParameters = true ∧
      ∃ parameters, (r.perform op).2.toMessage = { r.toMessage with parameters }) ∨
    ∃ version headers, (r.perform op).2.toMessage = { r.toMessage with version, headers } := by
  cases op with
  | setScheme | setAuthority | setPath | setParameters =>
    exact .inl ⟨rfl, rfl, _, _, _, _, rfl⟩
  | setCharset => exact .inr (.inl ⟨rfl, _, rfl⟩)
  | editParameters => exact .inr (.inr (.inl ⟨rfl, _, rfl⟩))
  | setVersion | editHeaders => exact .inr (.inr (.inr ⟨_, _, rfl⟩))
  | setQueryString raw =>
    cases raw with
    | none => exact .inl ⟨rfl, rfl, _, _, _, _, rfl⟩
    | some raw =>
      rw [perform_setQueryString]
      cases Query.parse raw r.charset with
      | error e => exact .inr (.inr (.inr ⟨_, _, rfl⟩))
      | ok params => exact .inl ⟨rfl, rfl, _, _, _, _, rfl⟩
  | addField name value =>
    rw [perform_addField]
    cases makeField name value <;> exact .inr (.inr (.inr ⟨_, _, rfl⟩))
  | setField name value =>
    rw [perform_setField]
    cases makeField name value <;> exact .inr (.inr (.inr ⟨_, _, rfl⟩))
  | read g =>
    rw [perform_read]
    exact .inr (.inr (.inr ⟨_, _, rfl⟩))
  | getUri =>
    rw [toMessage_getUri]
    exact .inr (.inr (.inr ⟨_, _, rfl⟩))

theorem charset_perform [Codecs] {op : Operation} (hop : op.assignsCharset = false) :
    (r.perform op).2.charset = r.charset := by
  rcases message_cases r op with
    ⟨-, -, _, _, _, _, hm⟩ | ⟨hassigns, -⟩ | ⟨-, _, hm⟩ | ⟨_, _, hm⟩
  · rw [hm]
  · exact absurd (hop.symm.trans hassigns) Bool.false_ne_true
  · rw [hm]
  · rw [hm]

theorem builder_perform [Codecs] {op : Operation}
    (hassigns : ¬ (op.assigns = true ∧ (r.perform op).1.isOk = true))
    (hedits : op.editsParameters = false) :
    (r.perform op).2.builder = { r.builder with charset := (r.perform op).2.charset } := by
  rcases message_cases r op with ⟨ha, hok, -⟩ | ⟨-, _, hm⟩ | ⟨hedit, -⟩ | ⟨_, _, hm⟩
  · exact absurd ⟨ha, hok⟩ hassigns
  · rw [hm]
    rfl
  · exact absurd (hedits.symm.trans hedit) Bool.false_ne_true
  · rw [hm]
    rfl

/-- The URL in store is composed of the components. -/
def Coherent [Codecs] (r : Request) : Prop := ∀ c, r.cache.current = some c → r.compose = .ok c.url

theorem Coherent.of_current [Codecs] (h : r.cache.current = none) : Coherent r :=
  fun _ hc => nomatch h.symm.trans hc

theorem Coherent.store [Codecs] {url : Url} (hu : r.compose = .ok url) :
    Coherent (r.store url) := by
  intro c hc
  obtain rfl : ⟨url, r.compositions⟩ = c := Option.some.inj hc
  exact hu

/-- As long as nothing bypasses the store, it stays coherent: what leaves the URL in store leaves
the target too. -/
theorem Coherent.perform [Codecs] (h : Coherent r) {op : Operation} (hop : op.bypasses = false) :
    Coherent (r.perform op).2 := by
  obtain ⟨hcharset, hedits⟩ := Operation.bypasses_eq_false.1 hop
  rcases perform_cases r op with
    ⟨hfails, hcache, -⟩ | ⟨-, -, hcache, -⟩ | ⟨-, -, url, hu, hstore⟩
  · have hassigns : ¬ (op.assigns = true ∧ (r.perform op).1.isOk = true) := fun hdone =>
      Bool.false_ne_true ((hfails hdone.1).symm.trans hdone.2)
    have hsame : (r.perform op).2.compose = r.compose := by
      rw [Message.compose, builder_perform hassigns hedits, charset_perform hcharset]
      rfl
    intro c hc
    rw [hcache] at hc
    exact hsame.trans (h c hc)
  · have hnone : (r.perform op).2.cache.current = none := by
      rw [hcache]
      rfl
    exact .of_current hnone
  · rw [hstore]
    exact .store hu

theorem coherent_of_request [Codecs] {o : Origin} (h : o.request = .ok r) : Coherent r := by
  intro c hc
  have hstanding := (follows_start h).current.symm.trans hc
  unfold Ledger.start at hstanding
  split at hstanding
  · next url _ hu =>
    obtain rfl : ⟨url, 0⟩ = c := Option.some.inj hstanding
    exact hu
  · exact nomatch hstanding

/-- The requests that come about without changes behind the back of the store. -/
inductive Reached [Codecs] : Request → Prop
  | start {o : Origin} {r : Request} (h : o.request = .ok r) : Reached r
  | perform {r : Request} {op : Operation} (h : Reached r) (hop : op.bypasses = false) :
    Reached (r.perform op).2

theorem Reached.coherent [Codecs] (h : Reached r) : Coherent r := by
  induction h with
  | start h => exact coherent_of_request h
  | perform _ hop ih => exact ih.perform hop

theorem Reached.run [Codecs] (h : Reached r) {ops : List Operation}
    (hops : ∀ op ∈ ops, op.bypasses = false) : Reached (r.run ops) := by
  induction ops generalizing r with
  | nil => exact h
  | cons op rest ih =>
    obtain ⟨hop, hrest⟩ := List.forall_mem_cons.1 hops
    exact ih (h.perform hop) hrest

theorem Coherent.compose_of_getUri [Codecs] (h : Coherent r) {c : Composed}
    (hc : (r.perform .getUri).1 = .ok (.url c)) : r.compose = .ok c.url := by
  have hu := h.perform rfl c (getUri_answer hc).1
  rwa [toMessage_getUri] at hu

end HttpUri.Request
