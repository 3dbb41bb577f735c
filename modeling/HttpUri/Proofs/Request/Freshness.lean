import HttpUri.Proofs.Request.Coherence
import HttpUri.Proofs.Request.Target
import Mathlib.Data.List.Induction

/-! What the URL that a request answers with agrees with: the target as it is, in the charset as it
was when the URL was composed. -/
namespace HttpUri

namespace Message
variable {m : Message} {u : Url}

/-- A URL is the one that a message composes, and its query the one that the message reads. -/
structure UpToDate [Codecs] (m : Message) (u : Url) : Prop where
  compose : m.compose = .ok u
  query : ∀ params ∈ m.parameters, params ≠ [] → m.queryString = .ok u.query

theorem upToDate_of_compose [Codecs] (h : m.compose = .ok u) : m.UpToDate u := by
  refine ⟨h, fun params hp hne => ?_⟩
  have hquery := Builder.query_of_build h
  obtain ⟨q, hformat, hu⟩ := Builder.format_of_queryText hquery hp hne
  have hsome : m.parameters = some params := hp
  rw [queryString, hsome, hu]
  exact Outcome.map_eq_ok.2 ⟨q, hformat, rfl⟩

end Message

namespace Request
open Message
variable {r : Request} {o : Origin} {ops : List Operation} {c : Composed}

/-- The URL in store is composed of what the request was at some point, and no setter of the target
has completed since. -/
theorem exists_composition [Codecs] (h : o.request = .ok r)
    (hc : (r.run ops).cache.current = some c) :
    ∃ before after, ops = before ++ after ∧ (r.run before).compose = .ok c.url ∧
      ¬ (r.run before).AssignsDuring after := by
  induction ops using List.reverseRecOn with
  | nil => exact ⟨[], [], rfl, coherent_of_request h c hc, not_assignsDuring_nil⟩
  | append_singleton ops op ih =>
    have hrun : r.run (ops ++ [op]) = ((r.run ops).perform op).2 := run_append r ops [op]
    rw [hrun] at hc
    rcases perform_cases (r.run ops) op with
      ⟨hkeeps, hcache, -⟩ | ⟨-, -, hcache, -⟩ | ⟨hno, -, url, hu, hstore⟩
    · rw [hcache] at hc
      obtain ⟨before, after, rfl, hu, hafter⟩ := ih hc
      refine ⟨before, after ++ [op], List.append_assoc before after [op], hu, ?_⟩
      rw [assignsDuring_concat, not_or, ← run_append]
      exact ⟨hafter, fun hop => Bool.false_ne_true ((hkeeps hop.1).symm.trans hop.2)⟩
    · rw [hcache] at hc
      exact nomatch hc
    · rw [hstore] at hc
      obtain rfl : ⟨url, _⟩ = c := Option.some.inj hc
      refine ⟨ops, [op], rfl, hu, ?_⟩
      rw [assignsDuring_cons, not_or]
      exact ⟨fun hop => Bool.false_ne_true (hno.symm.trans hop.1), not_assignsDuring_nil⟩

theorem exists_composition_of_getUri [Codecs] (h : o.request = .ok r)
    (hc : ((r.run ops).perform .getUri).1 = .ok (.url c)) :
    ∃ before after, ops = before ++ after ∧ (r.run before).compose = .ok c.url ∧
      ¬ (r.run before).AssignsDuring after := by
  rcases (getUri_answer hc).2 with hcurrent | ⟨hnone, -⟩
  · exact exists_composition h hcurrent
  · have hu : (r.run ops).compose = .ok c.url := (Coherent.of_current hnone).compose_of_getUri hc
    exact ⟨ops, [], (List.append_nil ops).symm, hu, not_assignsDuring_nil⟩

theorem charset_run [Codecs] (hops : ∀ op ∈ ops, op.assignsCharset = false) :
    (r.run ops).charset = r.charset := by
  induction ops generalizing r with
  | nil => rfl
  | cons op rest ih =>
    obtain ⟨hop, hrest⟩ := List.forall_mem_cons.1 hops
    exact (ih hrest).trans (charset_perform hop)

theorem builder_run [Codecs] (hassigns : ¬ r.AssignsDuring ops)
    (hedits : ∀ op ∈ ops, op.editsParameters = false) :
    (r.run ops).builder = { r.builder with charset := (r.run ops).charset } := by
  induction ops generalizing r with
  | nil => rfl
  | cons op rest ih =>
    rw [assignsDuring_cons, not_or] at hassigns
    obtain ⟨hop, hrest⟩ := List.forall_mem_cons.1 hedits
    have hstep := builder_perform hassigns.1 hop
    have hrun := ih hassigns.2 hrest
    rw [hstep] at hrun
    exact hrun

/-- A request answers with the URL of its target, composed in the charset it had at some point since
the target was last assigned, unless its list of parameters was edited after that. If the charset is
the same, the URL is up to date. -/
theorem getUri_upToDate [Codecs] (h : o.request = .ok r)
    (hc : ((r.run ops).perform .getUri).1 = .ok (.url c)) :
    ∃ before after, ops = before ++ after ∧ ¬ (r.run before).AssignsDuring after ∧
      (r.run before).UpToDate c.url ∧
        ((∀ op ∈ after, op.editsParameters = false) →
          UpToDate { (r.run ops).toMessage with charset := (r.run before).charset } c.url ∧
            ((∀ op ∈ after, op.assignsCharset = false) → (r.run ops).UpToDate c.url)) := by
  obtain ⟨before, after, rfl, hu, hafter⟩ := exists_composition_of_getUri h hc
  refine ⟨before, after, rfl, hafter, upToDate_of_compose hu, fun hedits => ?_⟩
  have hbuilder := builder_run hafter hedits
  rw [run_append]
  have hthen : compose { ((r.run before).run after).toMessage with
      charset := (r.run before).charset } = .ok c.url := by
    have hsame : builder { ((r.run before).run after).toMessage with
        charset := (r.run before).charset } = (r.run before).builder := by
      change { ((r.run before).run after).builder with charset := (r.run before).charset } = _
      rw [hbuilder]
      rfl
    rw [compose, hsame]
    exact hu
  refine ⟨upToDate_of_compose hthen, fun hcharset => ?_⟩
  rw [← charset_run hcharset] at hthen
  exact upToDate_of_compose hthen

/-- A charset assigned after the URL was composed. -/
theorem getUri_upToDate_of_charset :
    let r := bare "G".points "utf-8".points
    let ops : List Operation := [.setParameters (some [⟨[.char 'a'], some [.char 'é']⟩]), .getUri,
      .setCharset "latin-1".points]
    (Origin.ofText (some "G".points) none "utf-8".points).request = .ok r ∧
      ∃ c, ((r.run ops).perform .getUri).1 = .ok (.url c) ∧
        ∃ before after, ops = before ++ after ∧
          UpToDate { (r.run ops).toMessage with charset := (r.run before).charset } c.url := by
  intro r ops
  have hnew : (Origin.ofText (some "G".points) none "utf-8".points).request = .ok r := rfl
  have hsome : (r.run ops).cache.current.isSome = true := by decide +kernel
  obtain ⟨c, hcurrent⟩ := Option.isSome_iff_exists.1 hsome
  have hc : ((r.run ops).perform .getUri).1 = .ok (.url c) := by rw [perform_getUri, hcurrent]
  obtain ⟨before, after, hsplit, -, -, hfresh⟩ := getUri_upToDate hnew hc
  have hedits : ∀ op ∈ ops, op.editsParameters = false := List.forall_mem_cons.2
    ⟨rfl, List.forall_mem_cons.2 ⟨rfl, List.forall_mem_singleton.2 rfl⟩⟩
  have hafter : ∀ op ∈ after, op.editsParameters = false := fun op hop =>
    hedits op (hsplit ▸ List.mem_append_right before hop)
  exact ⟨hnew, c, hc, before, after, hsplit, (hfresh hafter).1⟩

private theorem exists_stale {s t : Text} (hs : r.cache.current.map (·.url.text) = some s)
    (ht : r.compose.toOption.map (·.text) = some t) (hne : s ≠ t) :
    ∃ c u, (r.perform .getUri).1 = .ok (.url c) ∧ r.compose = .ok u ∧ u ≠ c.url := by
  obtain ⟨c, hcurrent, rfl⟩ := Option.map_eq_some_iff.1 hs
  obtain ⟨u, hu, rfl⟩ := Outcome.toOption_map_eq_some.1 ht
  refine ⟨c, u, ?_, hu, fun heq => hne (heq ▸ rfl)⟩
  rw [perform_getUri, hcurrent]

/-- Neither a charset assigned after the URL was composed nor parameters edited in place show. -/
theorem getUri_stale :
    ∃ r, (Origin.ofText (some "G".points) none "utf-8".points).request = .ok r ∧
      ∀ op ∈ [Operation.setCharset "latin-1".points, .editParameters fun _ => []],
        let after := r.run [.setParameters (some [⟨[.char 'a'], some [.char 'é']⟩]), .getUri, op]
        ∃ c u, (after.perform .getUri).1 = .ok (.url c) ∧ after.compose = .ok u ∧ u ≠ c.url := by
  refine ⟨bare "G".points "utf-8".points, rfl, ?_⟩
  refine List.forall_mem_cons.2 ⟨?_, List.forall_mem_singleton.2 ?_⟩
  · exact exists_stale (s := "/?a=%C3%A9".points) (t := "/?a=%E9".points)
      (by decide +kernel) (by decide +kernel) (by decide)
  · exact exists_stale (s := "/?a=%C3%A9".points) (t := "/".points)
      (by decide +kernel) (by decide +kernel) (by decide)

end Request
end HttpUri
