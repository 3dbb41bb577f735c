import HttpUri.Request.Operation
import Mathlib.Data.List.Basic

/-! Requests without a store. A ledger holds what a request says and the history of its composed
URL; which URL is the answer, and when one is composed, is read off the history. -/
namespace HttpUri

namespace Request

/-- How a request comes about. -/
inductive Origin
  | ofText (method uri : Option Text) (charset : Text)
  | ofUrl (method : Option Text) (url : Url) (charset : Text)
  | ofUrl? (method : Option Text) (url : Option Url) (charset : Text)
  | ofHost (method : Option Text) (host : Option Host) (path : Option Text)
      (query : Option QueryInput) (charset : Text)

namespace Origin

def request [Codecs] : Origin → Except Error Request
  | .ofText method uri charset => (Request.ofText method uri charset).map (·.1)
  | .ofUrl method url charset => (Request.ofUrl method url charset).map (·.1)
  | .ofUrl? method url charset => (Request.ofUrl? method url charset).map (·.1)
  | .ofHost method host path query charset => Request.ofHost method host path query charset

def decomposes : Origin → Bool
  | .ofText _ (some uri) _ => (Url.parse uri).isOk
  | .ofText _ none _ => false
  | .ofUrl .. => true
  | .ofUrl? .. => true
  | .ofHost .. => false

end Origin

/-- The operations that assign a component of the target. -/
def Operation.assigns : Operation → Bool
  | .setScheme _ | .setAuthority _ | .setPath _ | .setParameters _ | .setQueryString _ => true
  | _ => false

def outcomes [Codecs] (r : Request) : List Operation → List (Except Error Answer)
  | [] => []
  | op :: rest => (r.perform op).1 :: outcomes (r.perform op).2 rest

/-- In the course of a run, a setter of the target completes. -/
def AssignsDuring [Codecs] (r : Request) (ops : List Operation) : Prop :=
  ∃ before op after, ops = before ++ op :: after ∧ op.assigns = true ∧
    ((r.run before).perform op).1.isOk = true

end Request

inductive Event
  | composed (c : Composed)
  | assigned
  /-- Neither of the two, or a failure. -/
  | passed

namespace Event

/-- The URL that stands after an event. -/
def after (standing : Option Composed) : Event → Option Composed
  | .composed c => some c
  | .assigned => none
  | .passed => standing

/-- The URL that stands after a history, oldest event first. -/
def standing (history : List Event) : Option Composed := history.foldl after none

def compositions : List Event → Nat
  | [] => 0
  | .composed _ :: rest => compositions rest + 1
  | _ :: rest => compositions rest

/-- A URL was composed, and since then no component was assigned. -/
def Stands (history : List Event) (c : Composed) : Prop :=
  ∃ before after, history = before ++ .composed c :: after ∧ .assigned ∉ after

end Event

/-- What a request says after an operation that is no question. -/
def Message.after [Codecs] (m : Message) : Request.Operation → Except Error Message
  | .setScheme scheme => .ok { m with scheme }
  | .setAuthority authority => .ok { m with authority }
  | .setPath path => .ok { m with path }
  | .setParameters parameters => .ok { m with parameters }
  | .setQueryString none => .ok { m with parameters := none }
  | .setQueryString (some raw) =>
    match Query.parse raw m.charset with
    | .ok params => .ok { m with parameters := some params }
    | .error e => .error (.codec e)
  | .setCharset charset => .ok { m with charset }
  | .setVersion version => .ok { m with version }
  | .editParameters change => .ok { m with parameters := m.parameters.map change }
  | .addField name value => (Request.makeField name value).map fun f =>
      { m with headers := m.headers.add f }
  | .setField name value => (Request.makeField name value).map fun f =>
      { m with headers := m.headers.set f }
  | .editHeaders e => .ok { m with headers := m.headers.apply e }
  | .read _ | .getUri => .ok m

/-- What a request says, and its history. -/
structure Ledger where
  message : Message
  history : List Event

namespace Ledger
open Request Event

/-- The ledger of a new request: its history starts with the composition of the URL out of the parts
of a reference, if that succeeds. -/
def start [Codecs] (o : Origin) (m : Message) : Ledger :=
  match o.decomposes, m.compose with
  | true, .ok url => ⟨m, [.composed ⟨url, 0⟩]⟩
  | _, _ => ⟨m, []⟩

/-- The answer to an operation, what the request says then, and the event. A URL that stands is
the answer; with none, one is composed. -/
def respond [Codecs] (l : Ledger) (op : Operation) : Except Error Answer × Message × Event :=
  match op with
  | .getUri =>
    match standing l.history, l.message.compose with
    | some c, _ => (.ok (.url c), l.message, .passed)
    | none, .ok url =>
      let c := ⟨url, compositions l.history⟩
      (.ok (.url c), l.message, .composed c)
    | none, .error e => (.error e, l.message, .passed)
  | .read g => ((Request.read l.message g).mapError .codec, l.message, .passed)
  | op =>
    match l.message.after op with
    | .ok m => (.ok .done, m, if op.assigns then .assigned else .passed)
    | .error e => (.error e, l.message, .passed)

def perform [Codecs] (l : Ledger) (op : Operation) : Except Error Answer × Ledger :=
  ((l.respond op).1, ⟨(l.respond op).2.1, l.history ++ [(l.respond op).2.2]⟩)

def run [Codecs] (l : Ledger) (ops : List Operation) : Ledger :=
  ops.foldl (fun l op => (l.perform op).2) l

def outcomes [Codecs] (l : Ledger) : List Operation → List (Except Error Answer)
  | [] => []
  | op :: rest => (l.perform op).1 :: outcomes (l.perform op).2 rest

end Ledger
namespace Event

theorem standing_concat (history : List Event) (e : Event) :
    standing (history ++ [e]) = after (standing history) e := by
  simp [standing]

@[simp] theorem compositions_append (a b : List Event) :
    compositions (a ++ b) = compositions a + compositions b := by
  induction a with
  | nil => simp [compositions]
  | cons e rest ih =>
    cases e with
    | composed c =>
      rw [List.cons_append, compositions, compositions, ih]
      omega
    | assigned => exact ih
    | passed => exact ih

theorem stands_concat {history : List Event} {e : Event} {c : Composed} :
    Stands (history ++ [e]) c ↔ e = .composed c ∨ (e ≠ .assigned ∧ Stands history c) := by
  constructor
  · intro hm
    obtain ⟨before, later, h, hl⟩ := hm
    rcases List.eq_nil_or_concat' later with rfl | ⟨later, d, rfl⟩
    · obtain ⟨-, he⟩ := List.append_inj' h rfl
      exact Or.inl (List.singleton_inj.1 he)
    · rw [← List.cons_append, ← List.append_assoc] at h
      obtain ⟨rfl, he⟩ := List.append_inj' h rfl
      have heq := List.singleton_inj.1 he
      subst heq
      simp only [List.mem_append, List.mem_singleton, not_or] at hl
      exact Or.inr ⟨Ne.symm hl.2, before, later, rfl, hl.1⟩
  · intro hm
    rcases hm with rfl | ⟨he, before, later, rfl, hl⟩
    · exact ⟨history, [], rfl, List.not_mem_nil⟩
    · refine ⟨before, later ++ [e], by simp, ?_⟩
      simp only [List.mem_append, List.mem_singleton, not_or]
      exact ⟨hl, Ne.symm he⟩

/-- In the history a URL is composed only where none stands. -/
inductive Orderly : List Event → Prop
  | nil : Orderly []
  | concat {history : List Event} {e : Event} (h : Orderly history)
      (he : ∀ c, e = .composed c → standing history = none) : Orderly (history ++ [e])

theorem Orderly.stands_iff {history : List Event} (h : Orderly history) {c : Composed} :
    Stands history c ↔ standing history = some c := by
  induction h with
  | nil => simp [Stands, standing]
  | @concat history e h he ih =>
    rw [stands_concat, standing_concat, ih]
    cases e with
    | composed d => simp [after, he d rfl]
    | assigned => simp [after]
    | passed => simp [after]

end Event

namespace Ledger
open Event Request

theorem orderly_start [Codecs] (o : Origin) (m : Message) : Orderly (start o m).history := by
  unfold start
  split
  · exact Orderly.nil.concat fun _ _ => rfl
  · exact .nil

theorem orderly_perform [Codecs] {l : Ledger} (h : Orderly l.history) (op : Operation) :
    Orderly (l.perform op).2.history := by
  refine h.concat fun c hc => ?_
  unfold respond at hc
  split at hc
  · split at hc
    · exact nomatch hc
    · next hs hu => exact hs
    · exact nomatch hc
  · exact nomatch hc
  · split at hc
    · cases hb : op.assigns with
      | true => simp [hb] at hc
      | false => simp [hb] at hc
    · exact nomatch hc

theorem orderly_run [Codecs] {l : Ledger} (h : Orderly l.history) (ops : List Operation) :
    Orderly (l.run ops).history := by
  induction ops generalizing l with
  | nil => exact h
  | cons op rest ih => exact ih (orderly_perform h op)

end Ledger
end HttpUri
