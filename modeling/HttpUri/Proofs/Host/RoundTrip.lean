import HttpUri.Host
import HttpUri.Proofs.Authority.RoundTrip
import HttpUri.Proofs.Text.Lower

/-! The text of a host reads back as the host. -/
namespace HttpUri.Host
variable {hostname rest : Text} {given : Datum} {scheme : Option Text} {h : Host} {port : Int}

/-- The mark behind a scheme does not overlap itself, so that it begins nowhere in a scheme that
does not hold all of it. -/
theorem takeScheme_append {name : Text} (hmark : ¬ "://".points <:+: name) :
    takeScheme (name ++ ("://".points ++ rest)) = (name, rest) := by
  have hcut : Text.cutAt "://".points (name ++ ("://".points ++ rest)) = some (name, rest) := by
    refine Text.cutAt_append (by decide) fun y hne hsuffix hprefix => ?_
    obtain ⟨tail, htail⟩ := hprefix
    match y with
    | [] => exact hne rfl
    | [c] => simp [String.points] at htail
    | [c, d] => simp [String.points] at htail
    | c :: d :: e :: z =>
      have hhead : "://".points = [c, d, e] := by
        simpa [String.points] using congrArg (List.take 3) htail
      refine hmark (List.IsInfix.trans ?_ hsuffix.isInfix)
      rw [hhead]
      exact (List.prefix_append [c, d, e] z).isInfix
  rw [takeScheme, hcut]
  rfl

theorem scheme_of_make (hmade : make hostname given scheme = .ok h) :
    Text.lower h.scheme = h.scheme ∧ h.scheme ≠ [] := by
  unfold make at hmade
  split at hmade
  · exact nomatch hmade
  · obtain rfl := Except.ok.inj hmade
    refine ⟨Text.lower_lower _, Text.lower_ne_nil ?_⟩
    split
    · decide
    · decide
    · next s hs => exact hs

/-- A host made again of its name, a number and its scheme changes at most its port. -/
theorem make_of_scheme (hlower : Text.lower h.scheme = h.scheme) (hne : h.scheme ≠ []) (n : Int) :
    make h.hostname (.whole n) (some h.scheme) = .ok { h with port := .whole n } := by
  obtain ⟨c, s, hscheme⟩ := List.exists_cons_of_ne_nil hne
  rw [hscheme] at hlower
  simp only [make, dif_neg h.named, hscheme, hlower]

theorem toUri_of_whole (hport : h.port = .whole port) :
    h.authority = .ok ⟨h.hostname, port, none, h.named⟩ ∧ h.toUri =
      .ok (h.scheme ++ "://".points ++ Authority.toText ⟨h.hostname, port, none, h.named⟩) := by
  have hauthority : h.authority = .ok ⟨h.hostname, port, none, h.named⟩ := by
    rw [authority, Authority.make, dif_neg h.named, hport]
  refine ⟨hauthority, ?_⟩
  rw [toUri, hauthority]
  rfl

/-- A host comes back from its text, a negative port as one that is not given. Whatever else its
name and its scheme hold, the first mark behind a scheme is the one that was put there. -/
theorem parse_toUri (hmade : make hostname given scheme = .ok h) (hport : h.port = .whole port)
    (hlimit : port < 10 ^ Numeral.digitLimit) (hmark : ¬ "://".points <:+: h.scheme)
    (hat : .char '@' ∉ h.hostname) (hopen : h.hostname.head? ≠ some (.char '['))
    (hclose : .char ':' ∈ h.hostname → .char ']' ∉ h.hostname) :
    ∃ uri, h.toUri = .ok uri ∧
      parse uri = .ok { h with port := .whole (if 0 ≤ port then port else -1) } := by
  let a : Authority := ⟨h.hostname, port, none, h.named⟩
  obtain ⟨-, huri⟩ := toUri_of_whole hport
  refine ⟨_, huri, ?_⟩
  have hsplit : takeScheme (h.scheme ++ "://".points ++ a.toText) = (h.scheme, a.toText) := by
    rw [List.append_assoc]
    exact takeScheme_append hmark
  have hauthority : Authority.parse a.toText =
      .ok { a with port := if 0 ≤ port then port else -1 } :=
    Authority.parse_toText hat hopen hclose hlimit
  obtain ⟨hlower, hne⟩ := scheme_of_make hmade
  rw [parse, hsplit]
  refine Outcome.bind_eq_ok.2 ⟨_, hauthority, ?_⟩
  exact make_of_scheme hlower hne _

/-- A scheme that ends like the mark begins, a mark and a lone bracket in the name, and a port that
is not given. -/
theorem parse_toUri_of_marks :
    let h : Host := ⟨"x://y[".points, .whole (-7), "a:/".points, by decide⟩
    let uri := "a:/://[x://y[]".points
    make h.hostname h.port (some "A:/".points) = .ok h ∧ h.toUri = .ok uri ∧
      parse uri = .ok { h with port := .whole (-1) } := by
  intro h uri
  have hmade : make h.hostname h.port (some "A:/".points) = .ok h := rfl
  have hlimit : (-7 : Int) < 10 ^ Numeral.digitLimit := Numeral.lt_limit_of_neg (by decide)
  have hmark : ¬ "://".points <:+: h.scheme := by decide
  obtain ⟨text, htext, hparse⟩ :=
    parse_toUri hmade rfl hlimit hmark (by decide) (by decide) (by decide)
  obtain rfl : uri = text := Except.ok.inj htext
  exact ⟨hmade, htext, hparse⟩

end HttpUri.Host
