import HttpUri.Proofs.Authority.RoundTrip

/-! Dividing an authority loses nothing, and its parts are the only ones that it divides into. -/
namespace HttpUri.AuthorityParts
open Authority (userText)
variable {a r host written : Text} {port : Option Text} {p : AuthorityParts}

/-- A bracket begins the text, and a colon or nothing follows the first closing one. -/
def Enclosed (r : Text) : Prop :=
  ∃ name behind : Text, r = .char '[' :: (name ++ .char ']' :: behind) ∧ .char ']' ∉ name ∧
    (behind = [] ∨ behind.head? = some (.char ':'))

theorem enclosed_iff :
    Enclosed r ↔ ∃ (name : Text) (port : Option Text),
      r = .char '[' :: (name ++ .char ']' :: portText port) ∧ .char ']' ∉ name := by
  constructor
  · intro h
    obtain ⟨name, behind, rfl, hclose, rfl | hcolon⟩ := h
    · exact ⟨name, none, rfl, hclose⟩
    · obtain ⟨d, rfl⟩ := List.head?_eq_some_iff.1 hcolon
      exact ⟨name, some d, rfl, hclose⟩
  · intro h
    obtain ⟨name, port, rfl, hclose⟩ := h
    refine ⟨name, portText port, rfl, hclose, ?_⟩
    cases port with
    | none => exact .inl rfl
    | some d => exact .inr rfl

/-- What a bracket begins is a host as a whole if the brackets do not close before a port or the
end. -/
theorem hostAndPort_of_not_enclosed (hopen : r.head? = some (.char '[')) (h : ¬ Enclosed r) :
    hostAndPort r = (r, none) := by
  obtain ⟨t, rfl⟩ := List.head?_eq_some_iff.1 hopen
  rcases hostAndPort_bracket t with ⟨name, q, rfl, hclose, -⟩ | hwhole
  · exact absurd (enclosed_iff.2 ⟨name, q, rfl, hclose⟩) h
  · exact hwhole

example : hostAndPort "[::1]x:80".points = ("[::1]x:80".points, none) := rfl

/-- How host and port make up a text, where the host is written with brackets or without. -/
structure HostDivision (r host : Text) (port : Option Text) (written : Text) : Prop where
  whole : r = written ++ portText port
  /-- Brackets are left out just when they enclose the host. -/
  brackets : written = .char '[' :: (host ++ [.char ']']) ↔ Enclosed r
  close : Enclosed r → .char ']' ∉ host
  bare : ¬ Enclosed r → written = host
  /-- Without brackets the host ends at the first colon. -/
  colon : ¬ Enclosed r → r.head? ≠ some (.char '[') → .char ':' ∉ host
  /-- Brackets that do not enclose the host stay in it with all that follows. -/
  stray : ¬ Enclosed r → r.head? = some (.char '[') → host = r ∧ port = none

theorem bracketed_ne_self (t : Text) : .char '[' :: (t ++ [.char ']']) ≠ t := by
  intro heq
  have hlength := congrArg List.length heq
  simp only [List.length_cons, List.length_append, List.length_nil] at hlength
  omega

theorem exists_hostDivision (r : Text) :
    ∃ written, HostDivision r (hostAndPort r).1 (hostAndPort r).2 written := by
  by_cases hr : Enclosed r
  · obtain ⟨name, q, rfl, hclose⟩ := enclosed_iff.1 hr
    rw [hostAndPort_literal q hclose]
    exact ⟨.char '[' :: (name ++ [.char ']']), {
      whole := (literal_append_portText name q).symm
      brackets := iff_of_true rfl hr
      close := fun _ => hclose
      bare := fun h => absurd hr h
      colon := fun h => absurd hr h
      stray := fun h => absurd hr h }⟩
  · by_cases hopen : r.head? = some (.char '[')
    · rw [hostAndPort_of_not_enclosed hopen hr]
      exact ⟨r, {
        whole := (List.append_nil r).symm
        brackets := iff_of_false (bracketed_ne_self r).symm hr
        close := fun h => absurd h hr
        bare := fun _ => rfl
        colon := fun _ hne => absurd hopen hne
        stray := fun _ _ => ⟨rfl, rfl⟩ }⟩
    · obtain ⟨name, q, hwhole, hcolon, heq⟩ := hostAndPort_of_head_ne hopen
      rw [heq]
      exact ⟨name, {
        whole := hwhole
        brackets := iff_of_false (bracketed_ne_self name).symm hr
        close := fun h => absurd h hr
        bare := fun _ => rfl
        colon := fun _ _ => hcolon
        stray := fun _ hhead => absurd hhead hopen }⟩

theorem HostDivision.hostAndPort_eq (h : HostDivision r host port written) :
    hostAndPort r = (host, port) := by
  by_cases hr : Enclosed r
  · have hwhole : r = .char '[' :: (host ++ .char ']' :: portText port) := by
      rw [h.whole, h.brackets.2 hr, literal_append_portText]
    rw [hwhole, hostAndPort_literal port (h.close hr)]
  · by_cases hopen : r.head? = some (.char '[')
    · obtain ⟨rfl, rfl⟩ := h.stray hr hopen
      exact hostAndPort_of_not_enclosed hopen hr
    · have hwhole : r = host ++ portText port := by rw [h.whole, h.bare hr]
      have hcolon : .char ':' ∉ host := h.colon hr hopen
      rw [hwhole] at hopen ⊢
      exact hostAndPort_name port (Text.head?_ne_of_append hopen) hcolon

/-- How parts make up a text: `location` is what stands behind the last at sign, and `written` the
host there. -/
structure Division (a : Text) (p : AuthorityParts) (location written : Text) : Prop where
  user : a = userText p.userInfo ++ location
  sign : .char '@' ∉ location
  noUser : p.userInfo = none ↔ .char '@' ∉ a
  hostSign : .char '@' ∉ p.host
  portSign : ∀ d ∈ p.port, .char '@' ∉ d
  host : HostDivision location p.host p.port written

theorem HostDivision.not_mem (h : HostDivision r host port written) (hat : .char '@' ∉ r) :
    .char '@' ∉ host ∧ ∀ d ∈ port, .char '@' ∉ d := by
  rw [h.whole, List.mem_append, not_or] at hat
  constructor
  · by_cases hr : Enclosed r
    · rw [h.brackets.2 hr] at hat
      exact fun hm => hat.1 (by simp [hm])
    · rw [h.bare hr] at hat
      exact hat.1
  · intro d hd hm
    obtain rfl : port = some d := hd
    exact hat.2 (List.mem_cons_of_mem _ hm)

theorem exists_division (a : Text) :
    ∃ location written, Division a (ofText a) location written := by
  cases hcut : Text.cutLast '@' a with
  | none =>
    have hat : .char '@' ∉ a := Text.cutLast_eq_none.1 hcut
    obtain ⟨written, hhost⟩ := exists_hostDivision a
    obtain ⟨hhostSign, hportSign⟩ := hhost.not_mem hat
    rw [ofText_of_not_mem hat]
    exact ⟨a, written, rfl, hat, iff_of_true rfl hat, hhostSign, hportSign, hhost⟩
  | some cut =>
    obtain ⟨info, r⟩ := cut
    obtain ⟨rfl, hat⟩ := Text.cutLast_eq_some.1 hcut
    obtain ⟨written, hhost⟩ := exists_hostDivision r
    obtain ⟨hhostSign, hportSign⟩ := hhost.not_mem hat
    have hsign : ¬ .char '@' ∉ info ++ .char '@' :: r := fun hno => hno (by simp)
    rw [ofText_append hat]
    exact ⟨r, written, by simp [userText], hat, iff_of_false (Option.some_ne_none info) hsign,
      hhostSign, hportSign, hhost⟩

theorem Division.ofText_eq {location : Text} (h : Division a p location written) :
    ofText a = p := by
  obtain ⟨userInfo, name, q⟩ := p
  have hparts : hostAndPort location = (name, q) := h.host.hostAndPort_eq
  rw [h.user]
  cases userInfo with
  | none =>
    change ofText location = _
    rw [ofText_of_not_mem h.sign, hparts]
  | some info =>
    have htext : userText (some info) ++ location = info ++ .char '@' :: location := by
      simp [userText]
    change ofText (userText (some info) ++ location) = _
    rw [htext, ofText_append h.sign, hparts]

/-- The parts of a text make it up, the brackets around the host included, and no other parts do:
which side of an at sign, a bracket or a colon a character lands on is settled. -/
theorem ofText_eq_iff_division :
    ofText a = p ↔ ∃ location written, Division a p location written := by
  constructor
  · rintro rfl
    exact exists_division a
  · intro h
    obtain ⟨location, written, hdivision⟩ := h
    exact hdivision.ofText_eq

end HttpUri.AuthorityParts
