import HttpUri.Charset.Registry
import HttpUri.Proofs.Outcome
import HttpUri.Proofs.Request.Identity

/-! A request answers every operation as its ledger does, so its store is what the history says it
should be. -/
namespace HttpUri

namespace Request
open Event

/-- The request says what its ledger says, and its store is clean just when a URL stands. -/
structure Follows (r : Request) (l : Ledger) : Prop where
  message : r.toMessage = l.message
  current : r.cache.current = standing l.history
  dirty : r.cache.dirty = r.cache.value.isNone
  compositions : r.compositions = Event.compositions l.history
  serial_lt : ∀ c, r.cache.current = some c → c.serial < r.compositions

namespace Follows
variable {r : Request} {l : Ledger}

theorem passed (h : Follows r l) (m : Message) :
    Follows { r with toMessage := m } ⟨m, l.history ++ [.passed]⟩ where
  message := rfl
  current := by rw [standing_concat]; exact h.current
  dirty := h.dirty
  compositions := by rw [compositions_append]; exact h.compositions
  serial_lt := h.serial_lt

theorem assigned (h : Follows r l) (m : Message) :
    Follows { r with toMessage := m, cache := r.cache.invalidate }
      ⟨m, l.history ++ [.assigned]⟩ where
  message := rfl
  current := by rw [standing_concat]; rfl
  dirty := rfl
  compositions := by rw [compositions_append]; exact h.compositions
  serial_lt := fun _ hc => nomatch hc

theorem composed (h : Follows r l) (url : Url) :
    Follows (r.store url)
      ⟨l.message, l.history ++ [.composed ⟨url, Event.compositions l.history⟩]⟩ where
  message := h.message
  current := by rw [standing_concat, ← h.compositions]; rfl
  dirty := rfl
  compositions := by rw [compositions_append, ← h.compositions]; rfl
  serial_lt := by
    intro c hc
    have heq : ⟨url, r.compositions⟩ = c := Option.some.inj hc
    subst heq
    exact Nat.lt_succ_self _

theorem dirty_of_current (h : Follows r l) (hc : r.cache.current = none) :
    r.cache.dirty = true := by
  have hd := h.dirty
  unfold Cache.current at hc
  cases hb : r.cache.dirty with
  | true => rfl
  | false =>
    simp only [hb, Bool.false_eq_true, if_false] at hc
    simp [hb, hc] at hd

theorem perform [Codecs] (h : Follows r l) (op : Operation) :
    (r.perform op).1 = (l.perform op).1 ∧ Follows (r.perform op).2 (l.perform op).2 := by
  obtain ⟨m, history⟩ := l
  have heq : r.toMessage = m := h.message
  subst heq
  cases op with
  | setScheme | setAuthority | setPath | setParameters => exact ⟨rfl, h.assigned _⟩
  | setCharset | setVersion | editParameters | editHeaders => exact ⟨rfl, h.passed _⟩
  | setQueryString raw =>
    cases raw with
    | none => exact ⟨rfl, h.assigned _⟩
    | some raw =>
      simp only [perform_setQueryString, Ledger.perform, Ledger.respond, Message.after]
      cases Query.parse raw r.charset with
      | error e => exact ⟨rfl, h.passed _⟩
      | ok params => exact ⟨rfl, h.assigned _⟩
  | addField name value =>
    simp only [perform_addField, Ledger.perform, Ledger.respond, Message.after]
    cases makeField name value with
    | error e => exact ⟨rfl, h.passed _⟩
    | ok f => exact ⟨rfl, h.passed _⟩
  | setField name value =>
    simp only [perform_setField, Ledger.perform, Ledger.respond, Message.after]
    cases makeField name value with
    | error e => exact ⟨rfl, h.passed _⟩
    | ok f => exact ⟨rfl, h.passed _⟩
  | read g =>
    simp only [perform_read, Ledger.perform, Ledger.respond]
    exact ⟨trivial, h.passed _⟩
  | getUri =>
    simp only [perform_getUri, Ledger.perform, Ledger.respond, h.current]
    cases standing history with
    | some c => exact ⟨rfl, h.passed _⟩
    | none =>
      cases r.compose with
      | error e => exact ⟨rfl, h.passed _⟩
      | ok url =>
        have hn : r.compositions = Event.compositions history := h.compositions
        exact ⟨by rw [hn], h.composed url⟩

end Follows

variable {r r' : Request} {l : Ledger}

theorem Follows.run [Codecs] (h : Follows r l) (ops : List Operation) :
    r.outcomes ops = l.outcomes ops ∧ Follows (r.run ops) (l.run ops) := by
  induction ops generalizing r l with
  | nil => exact ⟨rfl, h⟩
  | cons op rest ih =>
    obtain ⟨hanswer, hnext⟩ := h.perform op
    obtain ⟨hanswers, hlast⟩ := ih hnext
    exact ⟨by rw [outcomes, Ledger.outcomes, hanswer, hanswers], hlast⟩

theorem takeUrl_eq_ok [Codecs] {url : Url} {remarks : List Remark}
    (h : r.takeUrl url = .ok (r', remarks)) :
    ∃ m : Message,
      (∃ v, m.compose = .ok v ∧
        r' = Request.store { r with toMessage := m, cache := r.cache.invalidate } v) ∨
      (∃ why, m.compose = .error (.build why) ∧
        r' = { r with toMessage := m, cache := r.cache.invalidate }) := by
  unfold takeUrl at h
  obtain ⟨parameters, -, h⟩ := Outcome.bind_eq_ok.1 h
  dsimp only at h
  split at h
  · next v hv =>
    obtain ⟨rfl, -⟩ := Prod.mk.inj (Except.ok.inj h)
    exact ⟨_, Or.inl ⟨v, hv, rfl⟩⟩
  · next why hw =>
    obtain ⟨rfl, -⟩ := Prod.mk.inj (Except.ok.inj h)
    exact ⟨_, Or.inr ⟨why, hw, rfl⟩⟩
  · exact nomatch h

theorem follows_empty (m : Message) :
    Follows { toMessage := m, cache := .empty, compositions := 0 } ⟨m, []⟩ :=
  ⟨rfl, rfl, rfl, rfl, fun _ hc => nomatch hc⟩

theorem follows_start_of_empty [Codecs] {o : Origin} (ho : o.decomposes = false) (m : Message) :
    Follows { toMessage := m, cache := .empty, compositions := 0 } (Ledger.start o m) := by
  unfold Ledger.start
  rw [ho]
  exact follows_empty m

theorem follows_start_of_takeUrl [Codecs] {o : Origin} (ho : o.decomposes = true)
    {method charset : Text}
    {url : Url} {remarks : List Remark}
    (h : (bare method charset).takeUrl url = .ok (r, remarks)) :
    Follows r (Ledger.start o r.toMessage) := by
  obtain ⟨m, ⟨v, hm, rfl⟩ | ⟨why, hm, rfl⟩⟩ := takeUrl_eq_ok h
  · have hs : Ledger.start o m = ⟨m, [.composed ⟨v, 0⟩]⟩ := by rw [Ledger.start, ho, hm]
    exact hs ▸ (follows_empty m).composed v
  · have hs : Ledger.start o m = ⟨m, []⟩ := by rw [Ledger.start, ho, hm]
    exact hs ▸ follows_empty m

/-- A request and its ledger start out together, whatever the request is made of. -/
theorem follows_start [Codecs] {o : Origin} (h : o.request = .ok r) :
    Follows r (Ledger.start o r.toMessage) := by
  cases o with
  | ofText method uri charset =>
    obtain ⟨⟨r, remarks⟩, hr, rfl⟩ := Outcome.map_eq_ok.1 h
    cases method with
    | none => exact nomatch hr
    | some method =>
      cases uri with
      | none =>
        obtain ⟨rfl, -⟩ := Prod.mk.inj (Except.ok.inj hr)
        exact follows_start_of_empty rfl _
      | some uri =>
        simp only [ofText] at hr
        split at hr
        · next url hurl =>
          exact follows_start_of_takeUrl (by rw [Origin.decomposes, hurl]; rfl) hr
        · next e hurl =>
          obtain ⟨rfl, -⟩ := Prod.mk.inj (Except.ok.inj hr)
          exact follows_start_of_empty (by rw [Origin.decomposes, hurl]; rfl) _
        · exact nomatch hr
  | ofUrl method url charset =>
    obtain ⟨⟨r, remarks⟩, hr, rfl⟩ := Outcome.map_eq_ok.1 h
    cases method with
    | none => exact nomatch hr
    | some method => exact follows_start_of_takeUrl rfl hr
  | ofUrl? method url charset =>
    obtain ⟨⟨r, remarks⟩, hr, rfl⟩ := Outcome.map_eq_ok.1 h
    cases method with
    | none => exact nomatch hr
    | some method =>
      cases url with
      | none => exact nomatch hr
      | some url => exact follows_start_of_takeUrl rfl hr
  | ofHost method host path query charset =>
    cases method with
    | none => exact nomatch h
    | some method =>
      obtain ⟨authority, -, h⟩ := Outcome.bind_eq_ok.1 h
      obtain ⟨parameters, -, h⟩ := Outcome.bind_eq_ok.1 h
      have heq := Except.ok.inj h
      subst heq
      exact follows_start_of_empty rfl _

theorem setQueryString_of_error [Codecs] {raw : Option Text} {e : Error}
    (h : (r.perform (.setQueryString raw)).1 = .error e) :
    (r.perform (.setQueryString raw)).2 = r := by
  cases raw with
  | none => exact nomatch h
  | some raw =>
    rw [perform_setQueryString] at h ⊢
    cases hp : Query.parse raw r.charset with
    | error e => rfl
    | ok params =>
      rw [hp] at h
      exact nomatch h

/-- Of two answers in a run, the second is the first one again unless a component was assigned in
between. -/
theorem Follows.same_answer_iff [Codecs] (h : Follows r l) {c d : Composed} {later : List Operation}
    (hc : (r.perform .getUri).1 = .ok (.url c))
    (hd : (((r.perform .getUri).2.run later).perform .getUri).1 = .ok (.url d)) :
    (c.serial = d.serial ↔ ¬(r.perform .getUri).2.AssignsDuring later) ∧
      (c.serial = d.serial → c = d) := by
  have hcurrent := (getUri_answer hc).1
  have hlt := (h.perform .getUri).2.serial_lt c hcurrent
  by_cases ha : (r.perform .getUri).2.AssignsDuring later
  · obtain ⟨hn, hrecent⟩ := recent_run_of_assigned (Nat.le_refl _) ha
    have hle : (r.perform .getUri).2.compositions ≤ d.serial := by
      rcases (getUri_answer hd).2 with hs | ⟨-, hs⟩
      · exact hrecent d hs
      · exact hs ▸ hn
    exact ⟨⟨fun he => by omega, fun hna => absurd ha hna⟩, fun he => by omega⟩
  · have hstill := current_run_of_not_assigned hcurrent ha
    obtain rfl : c = d := by
      rcases (getUri_answer hd).2 with hs | ⟨hs, -⟩
      · exact Option.some.inj (hstill.symm.trans hs)
      · exact nomatch hstill.symm.trans hs
    exact ⟨⟨fun _ => ha, fun _ => rfl⟩, fun _ => rfl⟩

/-- The store follows the history over any run: all answers are the ledger's. A URL that stands is
handed out and nothing changes; with none, the outcome is that of composing the URL afresh, and it
is stored if there is one. A query string that cannot be read changes nothing. Two answers are one
and the same URL just when no setter of the target completes between them. -/
theorem getUri_follows_history [Codecs] {o : Origin} {r₀ : Request} (h : o.request = .ok r₀)
    (ops : List Operation) :
    let start := Ledger.start o r₀.toMessage
    let l := start.run ops
    let r := r₀.run ops
    (r₀.outcomes ops = start.outcomes ops ∧ r.toMessage = l.message) ∧
    (∀ c, Stands l.history c → r.perform .getUri = (.ok (.url c), r)) ∧
    ((∀ c, ¬Stands l.history c) →
      r.cache.dirty = true ∧
      (∀ url, r.compose = .ok url →
        r.perform .getUri = (.ok (.url ⟨url, r.compositions⟩), r.store url)) ∧
      (∀ e, r.compose = .error e → r.perform .getUri = (.error e, r))) ∧
    (∀ raw e, (r.perform (.setQueryString raw)).1 = .error e →
      (r.perform (.setQueryString raw)).2 = r) ∧
    (∀ c d later, (r.perform .getUri).1 = .ok (.url c) →
      (((r.perform .getUri).2.run later).perform .getUri).1 = .ok (.url d) →
      (c.serial = d.serial ↔ ¬(r.perform .getUri).2.AssignsDuring later) ∧
        (c.serial = d.serial → c = d)) := by
  intro start l r
  obtain ⟨hanswers, hf⟩ := (follows_start h).run ops
  have horderly : Orderly l.history := Ledger.orderly_run (Ledger.orderly_start o _) ops
  refine ⟨⟨hanswers, hf.message⟩, fun c hc => ?_, fun hnone => ?_,
    fun raw e => setQueryString_of_error, fun c d later => hf.same_answer_iff⟩
  · have hcurrent : r.cache.current = some c := hf.current.trans (horderly.stands_iff.1 hc)
    rw [perform_getUri, hcurrent]
  · have hcurrent : r.cache.current = none := by
      rw [hf.current, Option.eq_none_iff_forall_ne_some]
      exact fun c hc => hnone c (horderly.stands_iff.2 hc)
    exact ⟨hf.dirty_of_current hcurrent, fun url hu => by rw [perform_getUri, hcurrent, hu],
      fun e he => by rw [perform_getUri, hcurrent, he]⟩

/-- The URL of the decomposition is the first answer; after an assignment another one is, and an
edit in place leaves it standing. -/
theorem getUri_follows_history_of_reference :
    let o : Origin := .ofText (some "G".points) (some "http://h:8/a?b=c".points)
      [.char 'u', .char '8']
    let ops : List Operation :=
      [.getUri, .setPath (some [.char '/', .char 'x']), .getUri, .editParameters fun _ => []]
    ∃ r₀, o.request = .ok r₀ ∧
      r₀.outcomes ops = (Ledger.start o r₀.toMessage).outcomes ops ∧
      ∃ c, ((r₀.run ops).perform .getUri).1 = .ok (.url c) ∧ c.serial = 1 := by
  intro o ops
  exact ⟨_, rfl, (getUri_follows_history rfl ops).1.1, _, rfl, rfl⟩

end Request
end HttpUri
