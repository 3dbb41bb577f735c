import HttpUri.Proofs.Reference.Zones
import HttpUri.Proofs.Request.Freshness

/-! Spaces and control characters in the references that get through. -/
namespace HttpUri

/-- The space and the control characters, those beyond ASCII and the no-break space included. -/
def Text.isControl (c : CodePoint) : Bool :=
  decide (c.toNat ≤ 0x20) || decide (0x7F ≤ c.toNat ∧ c.toNat ≤ 0xA0)

theorem Grammar.isForeign_of_isControl {c : CodePoint} (h : Text.isControl c = true) :
    isForeign c = true := by
  have hall : ∀ n < 0xA1,
      Text.isControl (CodePoint.ofNat n) = true → isForeign (CodePoint.ofNat n) = true := by
    decide +kernel
  have hlt : c.toNat < 0xA1 := by
    simp only [Text.isControl, Bool.or_eq_true, decide_eq_true_eq] at h
    omega
  rw [← CodePoint.ofNat_toNat c] at h ⊢
  exact hall c.toNat hlt h

/-- The texts that are accepted as references, and those of the URLs that parsing, a builder and a
request give. -/
inductive Emitted [Codecs] : Text → Prop
  | accepted {s : Text} (h : Grammar.isReference s = true) : Emitted s
  | parsed {d : Datum} {u : Url} (h : Url.ofDatum d = .ok u) : Emitted u.text
  | built {b : Builder} {u : Url} (h : b.build = .ok u) : Emitted u.text
  | answered {o : Request.Origin} {r : Request} {ops : List Request.Operation} {c : Composed}
    (h : o.request = .ok r) (hc : ((r.run ops).perform .getUri).1 = .ok (.url c)) :
    Emitted c.url.text

theorem Url.isReference_text [Codecs] {s : Text} {u : Url} (h : parse s = .ok u) :
    Grammar.isReference u.text = true := by
  rw [text_of_parse h]
  exact (parse_eq_ok rfl h).1

theorem Builder.isReference_text [Codecs] {b : Builder} {u : Url} (h : b.build = .ok u) :
    Grammar.isReference u.text = true := by
  obtain ⟨path, query, -, hparse⟩ := build_eq_ok.1 h
  exact Url.isReference_text hparse

namespace Emitted
variable {s : Text}

theorem isReference [Codecs] (h : Emitted s) : Grammar.isReference s = true := by
  cases h with
  | accepted h => exact h
  | @parsed d u h =>
    cases d with
    | text t => exact Url.isReference_text (s := t) h
    | _ => exact nomatch h
  | built h => exact Builder.isReference_text h
  | answered h hc =>
    obtain ⟨before, -, -, hu, -⟩ := Request.exists_composition_of_getUri h hc
    exact Builder.isReference_text hu

/-- Spaces and control characters get through in the zone of an address in brackets, and nowhere
else: there are none unless the authority holds a bracket and a percent sign behind it. -/
theorem isControl_onlyInZone [Codecs] (h : Emitted s) : Grammar.OnlyInZone Text.isControl s ∧
    ((∀ a ∈ (Components.ofText s).authority, ¬ [.char '[', .char '%'].Sublist a) →
      ∀ c ∈ s, Text.isControl c = false) := by
  have href := h.isReference
  have hforeign : ∀ c, Text.isControl c = true → Grammar.isForeign c = true :=
    fun _ => Grammar.isForeign_of_isControl
  refine ⟨(Grammar.onlyInZone_of_isReference href).mono hforeign, fun hno c hc => ?_⟩
  refine Bool.eq_false_iff.2 fun hcontrol => ?_
  obtain ⟨a, ha, hca, hzone⟩ := Grammar.authority_of_isForeign href hc (hforeign c hcontrol)
  rcases hzone with hfree | ⟨before, address, zone, after, rfl, -⟩
  · exact Bool.false_ne_true ((hfree c hca).symm.trans (hforeign c hcontrol))
  · refine hno _ ha ?_
    have hpercent : [.char '%'].Sublist (address ++ .char '%' :: zone) :=
      List.singleton_sublist.2 (List.mem_append_right address List.mem_cons_self)
    have hbracket : [.char '[', .char '%'].Sublist (.char '[' :: (address ++ .char '%' :: zone)) :=
      hpercent.cons_cons _
    have hright := hbracket.trans (List.sublist_append_right before _)
    exact hright.trans (List.sublist_append_left _ _)

/-- A path and a query with a space and a line break, written as triplets. -/
theorem isControl_onlyInZone_of_path :
    let r := (Request.bare "G".points "utf-8".points).run
      [.setPath (some "/a b\r\n".points),
       .setParameters (some [⟨[.char '\x00'], some [.char '\t', .char ' ']⟩])]
    ∃ c, (r.perform .getUri).1 = .ok (.url c) ∧ Emitted c.url.text ∧
      ∀ d ∈ c.url.text, Text.isControl d = false := by
  intro r
  have hnew : (Request.Origin.ofText (some "G".points) none "utf-8".points).request =
      .ok (Request.bare "G".points "utf-8".points) := rfl
  have htext : r.compose.toOption.map (·.text) = some "/a%20b%0D%0A?%00=%09+".points := by
    decide +kernel
  obtain ⟨u, hu, hwritten⟩ := Outcome.toOption_map_eq_some.1 htext
  have hfresh : r.cache.current = none := by decide +kernel
  have hc : (r.perform .getUri).1 = .ok (.url ⟨u, r.compositions⟩) := by
    rw [Request.perform_getUri, hfresh, hu]
  have hemitted : Emitted u.text := .answered hnew hc
  have hauthority : (Components.ofText u.text).authority = none := by
    rw [hwritten]
    decide
  refine ⟨_, hc, hemitted, (isControl_onlyInZone hemitted).2 fun a ha => ?_⟩
  exact nomatch hauthority.symm.trans ha

/-- A space in a zone is accepted, parsed and written out again. -/
theorem isControl_of_zone :
    let s := "http://[::1%a b]/".points
    Grammar.isReference s = true ∧ .char ' ' ∈ s ∧ Text.isControl ' ' = true ∧
      ∃ u, Url.ofDatum (.text s) = .ok u ∧ u.text = s := by
  intro s
  have htext : (Url.ofDatum (.text s)).toOption.map (·.text) = some s := by decide +kernel
  have href : Grammar.isReference s = true := by decide +kernel
  exact ⟨href, by decide, rfl, Outcome.toOption_map_eq_some.1 htext⟩

end Emitted
end HttpUri
