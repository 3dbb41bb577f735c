import HttpUri.Proofs.Outcome
import HttpUri.Proofs.Reference.Encoded
import HttpUri.Proofs.Reference.Separation
import HttpUri.Url.Parts

/-! The five parts of a URL are the components of its text without breaks. -/
namespace HttpUri

namespace UrlParts
open Components (fragmentText queryText)

variable {s t : Text}

def withoutBreaks (s : Text) : Text := s.filter (!isBreak ·)

def Unbroken (s : Text) : Prop := ∀ c ∈ s, isBreak c = false

theorem unbroken_iff : Unbroken s ↔ withoutBreaks s = s := by
  unfold Unbroken withoutBreaks
  rw [List.filter_eq_self]
  simp only [Bool.not_eq_true']

theorem Unbroken.append (hs : Unbroken s) (ht : Unbroken t) : Unbroken (s ++ t) :=
  List.forall_mem_append.2 ⟨hs, ht⟩

theorem Unbroken.cons {c : CodePoint} (hc : isBreak c = false) (hs : Unbroken s) :
    Unbroken (c :: s) :=
  List.forall_mem_cons.2 ⟨hc, hs⟩

theorem Unbroken.nil : Unbroken [] := List.forall_mem_nil _

theorem takeScheme_eq (h : ∀ n ∈ (Components.takeScheme t).1, Grammar.isScheme n = true) :
    takeScheme t = (((Components.takeScheme t).1.getD []).map CodePoint.toLower,
      (Components.takeScheme t).2) := by
  rcases Components.takeScheme_cases t with ⟨heq, hno⟩ | ⟨name, rest, heq, rfl, -, hends⟩
  · rw [heq, takeScheme]
    split
    · next name rest hcut =>
      obtain ⟨rfl, hcolon⟩ := Text.cutFirst_eq_some.1 hcut
      split
      · next hscheme =>
        obtain ⟨hne, hends⟩ := Grammar.separated_of_isScheme hscheme
        obtain ⟨d, hd, hd'⟩ := hno name rest rfl hne
        exact absurd ((hends d hd).symm.trans hd') Bool.false_ne_true
      · rfl
    · rfl
  · rw [heq] at h ⊢
    have hcolon : .char ':' ∉ name := fun hm => absurd (hends _ hm) (by decide)
    rw [takeScheme, Text.cutFirst_eq_some.2 ⟨rfl, hcolon⟩]
    exact if_pos (h name rfl)

theorem takeAuthority_eq (t : Text) :
    takeAuthority t = ((Components.takeAuthority t).1.getD [], (Components.takeAuthority t).2) := by
  rcases Components.takeAuthority_cases t with ⟨heq, hno⟩ | ⟨rest, rfl, heq⟩
  · rw [heq, takeAuthority]
    · rfl
    · exact hno
  · rw [heq]
    rfl

theorem cutOr_append {c : CodePoint} {part : Option Text → Text} (hnone : part none = [])
    (hsome : ∀ t, part (some t) = c :: t) (hs : c ∉ s) (o : Option Text) :
    cutOr c (s ++ part o) = (s, o.getD []) := by
  cases o with
  | none =>
    rw [hnone, List.append_nil, cutOr, Text.cutFirst_eq_none.2 hs]
    rfl
  | some t =>
    rw [hsome, cutOr, Text.cutFirst_eq_some.2 ⟨rfl, hs⟩]
    rfl

/-- The parts are the components, once the authority has passed its checks. -/
theorem ofText_eq {c : Components} (hc : Components.ofText (withoutBreaks s) = c)
    (hs : ∀ n ∈ c.scheme, Grammar.isScheme n = true) : ofText s = do
      checkBrackets (c.authority.getD [])
      checkLookalikes (c.authority.getD [])
      return ⟨(c.scheme.getD []).map CodePoint.toLower, c.authority.getD [], c.path,
        c.query.getD [],
        c.fragment.getD []⟩ := by
  subst hc
  have hsep := Components.separated_ofText (withoutBreaks s)
  have hfragment := hsep.hash_not_mem
  have hquery := hsep.not_mem (d := .char '?') rfl
  simp only [List.mem_append, not_or] at hfragment hquery
  have hpath (q : Option Text) : cutOr '?' ((Components.ofText (withoutBreaks s)).path ++
      queryText q) = ((Components.ofText (withoutBreaks s)).path, q.getD []) :=
    cutOr_append rfl (fun _ => rfl) hquery.2 q
  rw [ofText, ← withoutBreaks, takeScheme_eq hs]
  simp only [takeAuthority_eq]
  rw [Components.takeAuthority_rest, ← List.append_assoc,
    cutOr_append rfl (fun _ => rfl) (by simp [hfragment])]
  simp only [hpath]
  rfl

theorem ofText_eq_ok {parts : UrlParts} {c : Components}
    (hc : Components.ofText (withoutBreaks s) = c)
    (hs : ∀ n ∈ c.scheme, Grammar.isScheme n = true) : ofText s = .ok parts ↔
      checkBrackets (c.authority.getD []) = .ok () ∧
        checkLookalikes (c.authority.getD []) = .ok () ∧
        parts = ⟨(c.scheme.getD []).map CodePoint.toLower, c.authority.getD [], c.path,
          c.query.getD [],
          c.fragment.getD []⟩ := by
  rw [ofText_eq hc hs]
  constructor
  · intro h
    obtain ⟨⟨⟩, hbrackets, h⟩ := Outcome.bind_eq_ok.1 h
    obtain ⟨⟨⟩, hlookalikes, h⟩ := Outcome.bind_eq_ok.1 h
    exact ⟨hbrackets, hlookalikes, (Except.ok.inj h).symm⟩
  · intro h
    obtain ⟨hbrackets, hlookalikes, rfl⟩ := h
    refine Outcome.bind_eq_ok.2 ⟨(), hbrackets, ?_⟩
    exact Outcome.bind_eq_ok.2 ⟨(), hlookalikes, rfl⟩

end UrlParts
end HttpUri
