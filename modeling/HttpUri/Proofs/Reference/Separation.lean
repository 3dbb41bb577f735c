import HttpUri.Proofs.Text.Pieces
import HttpUri.Reference.Components
import Mathlib.Data.List.TakeWhile
import Mathlib.Tactic.Push

/-! Components that no delimiter blurs: those that a text divides into, and no others. -/
namespace HttpUri.Components

/-- Each component is free of what ends it, and the text after an absent one does not look like it.
-/
structure Separated (c : Components) : Prop where
  scheme : ∀ s ∈ c.scheme, s ≠ [] ∧ ∀ d ∈ s, endsScheme d = false
  noScheme : c.scheme = none → c.authority = none →
    ∀ x y : Text, c.path = x ++ .char ':' :: y → x ≠ [] → ∃ d ∈ x, endsScheme d = true
  authority : ∀ a ∈ c.authority, (∀ d ∈ a, endsAuthority d = false) ∧
    (c.path = [] ∨ ∃ p, c.path = .char '/' :: p)
  noAuthority : c.authority = none → ∀ p, c.path ≠ .char '/' :: .char '/' :: p
  path : ∀ d ∈ c.path, endsPath d = false
  query : ∀ q ∈ c.query, .char '#' ∉ q

theorem endsAuthority_eq_false {l : Text} (h : .char '/' ∉ l ∧ .char '?' ∉ l ∧ .char '#' ∉ l) :
    ∀ d ∈ l, endsAuthority d = false := by
  intro d hd
  refine Bool.eq_false_iff.2 fun hc => ?_
  simp only [endsAuthority, Bool.or_eq_true, decide_eq_true_eq] at hc
  rcases hc with (rfl | rfl) | rfl
  · exact h.1 hd
  · exact h.2.1 hd
  · exact h.2.2 hd

theorem endsPath_eq_false {l : Text} (h : .char '?' ∉ l ∧ .char '#' ∉ l) :
    ∀ d ∈ l, endsPath d = false := by
  intro d hd
  refine Bool.eq_false_iff.2 fun hc => ?_
  simp only [endsPath, Bool.or_eq_true, decide_eq_true_eq] at hc
  rcases hc with rfl | rfl
  · exact h.1 hd
  · exact h.2 hd

theorem ends_of_head {c : CodePoint} {t : Text} (hc : endsScheme c = true) (x y : Text)
    (h : c :: t = x ++ .char ':' :: y) (hx : x ≠ []) : ∃ d ∈ x, endsScheme d = true := by
  cases x with
  | nil => exact absurd rfl hx
  | cons d x =>
    obtain ⟨rfl, -⟩ := List.cons.inj h
    exact ⟨c, List.mem_cons_self, hc⟩

theorem not_mem_front {scheme authority : Option Text} {path : Text} {d : CodePoint}
    (hscheme : ∀ s ∈ scheme, ∀ c ∈ s, endsScheme c = false)
    (hauthority : ∀ a ∈ authority, ∀ c ∈ a, endsAuthority c = false)
    (hpath : ∀ c ∈ path, endsPath c = false) (hd : endsPath d = true) :
    d ∉ schemeText scheme ++ authorityText authority ++ path := by
  have hd : d = '?' ∨ d = '#' := by
    simpa only [endsPath, Bool.or_eq_true, decide_eq_true_eq] using hd
  have hends : endsScheme d = true ∧ endsAuthority d = true ∧ endsPath d = true ∧ d ≠ ':' ∧
      d ≠ '/' := by
    rcases hd with rfl | rfl <;> decide
  obtain ⟨hes, hea, hep, hcolon, hslash⟩ := hends
  simp only [List.mem_append, not_or]
  refine ⟨⟨?_, ?_⟩, Text.not_mem_of_free hpath hep⟩
  · cases scheme with
    | none => exact List.not_mem_nil
    | some s =>
      have hs := Text.not_mem_of_free (hscheme s rfl) hes
      unfold schemeText
      rw [List.mem_append, List.mem_singleton, not_or]
      exact ⟨hs, hcolon⟩
  · cases authority with
    | none => exact List.not_mem_nil
    | some a =>
      have ha := Text.not_mem_of_free (hauthority a rfl) hea
      unfold authorityText
      rw [List.mem_cons, List.mem_cons, not_or, not_or]
      exact ⟨hslash, hslash, ha⟩

theorem Separated.not_mem {c : Components} (h : c.Separated) {d : CodePoint}
    (hd : endsPath d = true) :
    d ∉ schemeText c.scheme ++ authorityText c.authority ++ c.path :=
  not_mem_front (fun s hs => (h.scheme s hs).2) (fun a ha => (h.authority a ha).1) h.path hd

theorem Separated.hash_not_mem {c : Components} (h : c.Separated) :
    .char '#' ∉ schemeText c.scheme ++ authorityText c.authority ++ c.path ++
      queryText c.query := by
  have hquery : .char '#' ∉ queryText c.query :=
    Text.not_mem_signed rfl (fun _ => rfl) (by decide) h.query
  rw [List.mem_append, not_or]
  exact ⟨h.not_mem rfl, hquery⟩

/-- A text that is empty or starts with a character of this kind. -/
def Begins (p : CodePoint → Bool) (s : Text) : Prop := ∀ c rest, s = c :: rest → p c = true

variable {p q : CodePoint → Bool} {s t : Text}

theorem Begins.mono (h : Begins p s) (hpq : ∀ c, p c = true → q c = true) : Begins q s :=
  fun c rest hs => hpq c (h c rest hs)

theorem begins_dropWhile (s : Text) : Begins p (s.dropWhile (!p ·)) := by
  intro c rest hs
  rcases dropWhile_eq_nil_or (p := (!p ·)) s with hn | ⟨d, tail, hd, hp⟩
  · exact nomatch hs.symm.trans hn
  · obtain ⟨rfl, -⟩ := List.cons.inj (hs.symm.trans hd)
    simpa using hp

/-- A part is taken whole if nothing in it ends it and something behind it does. -/
theorem takeWhile_append_of_begins (hs : ∀ c ∈ s, p c = false) (ht : Begins p t) :
    (s ++ t).takeWhile (!p ·) = s ∧ (s ++ t).dropWhile (!p ·) = t := by
  have hall : ∀ c ∈ s, (!p c) = true := fun c hc => by rw [hs c hc]; rfl
  rw [List.takeWhile_append_of_pos hall, List.dropWhile_append_of_pos hall]
  cases t with
  | nil => exact ⟨List.append_nil s, rfl⟩
  | cons d rest =>
    have hd : p d = true := ht d rest rfl
    simp [hd]

theorem takeScheme_append (hs : s ≠ []) (hends : ∀ c ∈ s, endsScheme c = false) :
    takeScheme (s ++ .char ':' :: t) = (some s, t) := by
  have hcolon : Begins endsScheme (.char ':' :: t) := by
    intro c rest h
    obtain ⟨rfl, -⟩ := List.cons.inj h
    rfl
  obtain ⟨htake, hdrop⟩ := takeWhile_append_of_begins hends hcolon
  cases s with
  | nil => exact absurd rfl hs
  | cons c name =>
    unfold takeScheme
    rw [htake, hdrop]
    rfl

theorem takeScheme_cases (s : Text) :
    (takeScheme s = (none, s) ∧
      ∀ x y : Text, s = x ++ .char ':' :: y → x ≠ [] → ∃ c ∈ x, endsScheme c = true) ∨
    ∃ name rest, takeScheme s = (some name, rest) ∧ s = name ++ .char ':' :: rest ∧ name ≠ [] ∧
      ∀ c ∈ name, endsScheme c = false := by
  by_cases h : ∀ x y : Text, s = x ++ .char ':' :: y → x ≠ [] → ∃ c ∈ x, endsScheme c = true
  · refine .inl ⟨?_, h⟩
    unfold takeScheme
    split
    · next c name rest hname hrest =>
      have hs : s = (c :: name) ++ .char ':' :: rest := by
        rw [← hname, ← hrest, List.takeWhile_append_dropWhile]
      obtain ⟨d, hd, hends⟩ := h _ _ hs (List.cons_ne_nil c name)
      rw [← hname] at hd
      have hkeeps := List.mem_takeWhile_imp hd
      rw [hends] at hkeeps
      exact nomatch hkeeps
    · rfl
  · push Not at h
    obtain ⟨x, y, rfl, hne, hx⟩ := h
    have hends : ∀ c ∈ x, endsScheme c = false := fun c hc => Bool.eq_false_iff.2 (hx c hc)
    exact .inr ⟨x, y, takeScheme_append hne hends, rfl, hne, hends⟩

theorem takeAuthority_cases (s : Text) :
    (takeAuthority s = (none, s) ∧ ∀ t, s ≠ .char '/' :: .char '/' :: t) ∨
    ∃ t, s = .char '/' :: .char '/' :: t ∧ takeAuthority s =
      (some (t.takeWhile (!endsAuthority ·)), t.dropWhile (!endsAuthority ·)) := by
  unfold takeAuthority
  split
  · next rest => exact .inr ⟨rest, rfl, rfl⟩
  · next hs => exact .inl ⟨rfl, hs⟩

theorem begins_suffix (q f : Option Text) : Begins endsPath (queryText q ++ fragmentText f) := by
  intro c rest h
  cases q with
  | some q => obtain ⟨rfl, -⟩ := List.cons.inj h; rfl
  | none =>
    cases f with
    | some f => obtain ⟨rfl, -⟩ := List.cons.inj h; rfl
    | none => exact nomatch h

@[simp] theorem takeFragment_fragmentText (f : Option Text) :
    takeFragment (fragmentText f) = f := by
  cases f <;> rfl

theorem takeQuery_queryText {q f : Option Text} (hq : ∀ t ∈ q, .char '#' ∉ t) :
    takeQuery (queryText q ++ fragmentText f) = (q, fragmentText f) := by
  cases q with
  | none => cases f <;> rfl
  | some q =>
    have hfragment : Begins (· = '#') (fragmentText f) := by
      intro c rest h
      cases f with
      | none => exact nomatch h
      | some f => obtain ⟨rfl, -⟩ := List.cons.inj h; rfl
    have hfree : ∀ c ∈ q, decide (c = '#') = false := by
      intro c hc
      apply decide_eq_false
      intro heq
      subst heq
      exact hq q rfl hc
    obtain ⟨htake, hdrop⟩ := takeWhile_append_of_begins hfree hfragment
    simp only [takeQuery, queryText, List.cons_append, ne_eq, decide_not]
    rw [htake, hdrop]

private theorem takeScheme_relative {path rest : Text} (hrest : Begins endsPath rest)
    (h : ∀ x y : Text, path = x ++ .char ':' :: y → x ≠ [] → ∃ d ∈ x, endsScheme d = true) :
    takeScheme (path ++ rest) = (none, path ++ rest) := by
  rcases takeScheme_cases (path ++ rest) with ⟨hnone, -⟩ | ⟨name, tail, -, hs, hne, hname⟩
  · exact hnone
  · exfalso
    have hdelim : ∀ c, endsPath c = true → endsScheme c = true ∧ c ≠ ':' := by
      intro c hc
      simp only [endsPath, Bool.or_eq_true, decide_eq_true_eq] at hc
      rcases hc with rfl | rfl <;> decide
    rcases List.append_eq_append_iff.1 hs with ⟨m, hm, hr⟩ | ⟨m, hm, hr⟩
    · cases m with
      | nil =>
        obtain ⟨-, hc⟩ := hdelim _ (hrest _ _ hr)
        exact hc rfl
      | cons c m =>
        obtain ⟨hc, -⟩ := hdelim c (hrest _ _ hr)
        apply Text.not_mem_of_free hname hc
        rw [hm]
        simp
    · cases m with
      | nil =>
        obtain ⟨-, hc⟩ := hdelim _ (hrest _ _ hr.symm)
        exact hc rfl
      | cons c m =>
        obtain ⟨rfl, -⟩ := List.cons.inj hr
        obtain ⟨d, hd, hends⟩ := h _ _ hm hne
        exact Text.not_mem_of_free hname hends hd

private theorem not_two_slashes {path rest : Text} (hrest : Begins endsPath rest)
    (h : ∀ p, path ≠ .char '/' :: .char '/' :: p) (p : Text) :
    path ++ rest ≠ .char '/' :: .char '/' :: p := by
  intro hp
  match path, h with
  | [], _ => exact absurd (hrest _ _ hp) (by decide)
  | [c], _ =>
    obtain ⟨-, hrest'⟩ := List.cons.inj hp
    exact absurd (hrest _ _ hrest') (by decide)
  | c :: d :: tail, h =>
    simp only [List.cons_append, List.cons.injEq] at hp
    obtain ⟨rfl, rfl, -⟩ := hp
    exact h tail rfl

theorem takeScheme_schemeText {sc : Option Text}
    (hsome : ∀ s ∈ sc, s ≠ [] ∧ ∀ d ∈ s, endsScheme d = false)
    (hnone : sc = none → takeScheme t = (none, t)) :
    takeScheme (schemeText sc ++ t) = (sc, t) := by
  cases sc with
  | none => exact hnone rfl
  | some s =>
    obtain ⟨hne, hends⟩ := hsome s rfl
    simp only [schemeText, List.append_assoc, List.cons_append, List.nil_append]
    exact takeScheme_append hne hends

theorem authority_ofText {sc : Option Text} {x : Text}
    (hsc : ∀ s ∈ sc, s ≠ [] ∧ ∀ d ∈ s, endsScheme d = false)
    (hx : ∀ d ∈ x, endsAuthority d = false) :
    (ofText (schemeText sc ++ .char '/' :: .char '/' :: (x ++ t))).authority =
      some (x ++ t.takeWhile (!endsAuthority ·)) := by
  have hall : ∀ d ∈ x, (!endsAuthority d) = true := fun d hd => by rw [hx d hd]; rfl
  have hscheme := takeScheme_schemeText (t := .char '/' :: .char '/' :: (x ++ t)) hsc fun _ => rfl
  simp only [ofText, hscheme, takeAuthority, List.takeWhile_append_of_pos hall]

theorem takeAuthority_authorityText {au : Option Text}
    (hsome : ∀ a ∈ au, (∀ d ∈ a, endsAuthority d = false) ∧ Begins endsAuthority t)
    (hnone : au = none → ∀ p, t ≠ .char '/' :: .char '/' :: p) :
    takeAuthority (authorityText au ++ t) = (au, t) := by
  cases au with
  | none =>
    rcases takeAuthority_cases t with ⟨h, -⟩ | ⟨p, h, -⟩
    · exact h
    · exact absurd h (hnone rfl p)
  | some a =>
    obtain ⟨hends, ht⟩ := hsome a rfl
    obtain ⟨htake, hdrop⟩ := takeWhile_append_of_begins hends ht
    simp only [takeAuthority, authorityText, List.cons_append, htake, hdrop]

/-- Separated components are read back from their text. -/
theorem ofText_toText {c : Components} (h : c.Separated) : ofText (toText c) = c := by
  obtain ⟨sc, au, path, q, f⟩ := c
  have hsuffix := begins_suffix q f
  obtain ⟨htake, hdrop⟩ := takeWhile_append_of_begins h.path hsuffix
  have hscheme : takeScheme (schemeText sc ++ (authorityText au ++
      (path ++ (queryText q ++ fragmentText f)))) =
        (sc, authorityText au ++ (path ++ (queryText q ++ fragmentText f))) := by
    apply takeScheme_schemeText h.scheme
    intro heq
    subst heq
    cases au with
    | none =>
      have hrelative := takeScheme_relative hsuffix (h.noScheme rfl rfl)
      exact hrelative
    | some a => rfl
  have hauthority : takeAuthority (authorityText au ++ (path ++ (queryText q ++ fragmentText f))) =
      (au, path ++ (queryText q ++ fragmentText f)) := by
    refine takeAuthority_authorityText ?_ ?_
    · intro a ha
      refine ⟨(h.authority a ha).1, ?_⟩
      rcases (h.authority a ha).2 with hp | ⟨p, hp⟩
      · have hsame : path = [] := hp
        subst hsame
        refine hsuffix.mono fun c hc => ?_
        simp only [endsPath, endsAuthority, Bool.or_eq_true] at hc ⊢
        exact or_assoc.2 (.inr hc)
      · have hsame : path = .char '/' :: p := hp
        subst hsame
        intro c rest hc
        obtain ⟨rfl, -⟩ := List.cons.inj hc
        rfl
    · exact fun ha => not_two_slashes hsuffix (h.noAuthority ha)
  simp only [toText, List.append_assoc, ofText, hscheme, hauthority, htake, hdrop,
    takeQuery_queryText h.query, takeFragment_fragmentText]

theorem takeAuthority_rest (s : Text) : (takeAuthority (takeScheme s).2).2 =
    (ofText s).path ++ (queryText (ofText s).query ++ fragmentText (ofText s).fragment) := by
  have htext := toText_ofText s
  simp only [toText, List.append_assoc] at htext
  have hs := schemeText_takeScheme s
  rw [← authorityText_takeAuthority (takeScheme s).2] at hs
  have hrest := List.append_cancel_left (hs.trans htext.symm)
  exact List.append_cancel_left hrest

theorem mem_takeScheme {n : Text} (h : n ∈ (takeScheme s).1) :
    n ≠ [] ∧ ∀ d ∈ n, endsScheme d = false := by
  rcases takeScheme_cases s with ⟨heq, -⟩ | ⟨name, rest, heq, -, hname⟩
  · rw [heq] at h
    exact absurd h (Option.not_mem_none n)
  · rw [heq] at h
    have hsame := Option.some.inj h
    subst hsame
    exact hname

theorem takeScheme_eq_none (h : (takeScheme s).1 = none) : (takeScheme s).2 = s ∧
    ∀ x y : Text, s = x ++ .char ':' :: y → x ≠ [] → ∃ d ∈ x, endsScheme d = true := by
  rcases takeScheme_cases s with ⟨heq, hno⟩ | ⟨name, rest, heq, -⟩
  · rw [heq]
    exact ⟨rfl, hno⟩
  · rw [heq] at h
    exact absurd h (Option.some_ne_none name)

theorem mem_takeAuthority {a : Text} (h : a ∈ (takeAuthority s).1) :
    (∀ d ∈ a, endsAuthority d = false) ∧ Begins endsAuthority (takeAuthority s).2 := by
  rcases takeAuthority_cases s with ⟨heq, -⟩ | ⟨t, -, heq⟩
  · rw [heq] at h
    exact absurd h (Option.not_mem_none a)
  · rw [heq] at h ⊢
    have hsame := Option.some.inj h
    subst hsame
    refine ⟨fun d hd => ?_, begins_dropWhile t⟩
    simpa using List.mem_takeWhile_imp hd

theorem takeAuthority_eq_none (h : (takeAuthority s).1 = none) :
    (takeAuthority s).2 = s ∧ ∀ t, s ≠ .char '/' :: .char '/' :: t := by
  rcases takeAuthority_cases s with ⟨heq, hno⟩ | ⟨t, -, heq⟩
  · rw [heq]
    exact ⟨rfl, hno⟩
  · rw [heq] at h
    exact absurd h (Option.some_ne_none _)

theorem path_of_begins (h : Begins endsAuthority s) : s.takeWhile (!endsPath ·) = [] ∨
    ∃ p, s.takeWhile (!endsPath ·) = .char '/' :: p := by
  cases s with
  | nil => exact .inl rfl
  | cons c rest =>
    have hc := h c rest rfl
    simp only [endsAuthority, Bool.or_eq_true, decide_eq_true_eq] at hc
    rcases hc with (rfl | rfl) | rfl
    · exact .inr ⟨_, rfl⟩
    · exact .inl rfl
    · exact .inl rfl

theorem not_mem_of_mem_takeQuery {q : Text} (hq : q ∈ (takeQuery t).1) : .char '#' ∉ q := by
  unfold takeQuery at hq
  split at hq
  · next rest =>
    have heq := Option.some.inj hq
    subst heq
    intro hm
    exact absurd (List.mem_takeWhile_imp hm) (by decide)
  · exact absurd hq (Option.not_mem_none q)

/-- Every text divides into separated components. -/
theorem separated_ofText (s : Text) : (ofText s).Separated := by
  have hcut : (ofText s).path ++ (takeAuthority (takeScheme s).2).2.dropWhile (!endsPath ·) =
      (takeAuthority (takeScheme s).2).2 := List.takeWhile_append_dropWhile
  refine ⟨fun n hn => mem_takeScheme hn, ?_, ?_, ?_, ?_, fun q hq => not_mem_of_mem_takeQuery hq⟩
  · intro hn ha x y hp hx
    have hnone : (takeAuthority (takeScheme s).2).1 = none := ha
    obtain ⟨hs, hno⟩ := takeScheme_eq_none hn
    obtain ⟨ht, -⟩ := takeAuthority_eq_none hnone
    rw [ht, hs, hp, List.append_assoc] at hcut
    exact hno x _ hcut.symm hx
  · intro a ha
    obtain ⟨hends, hrest⟩ := mem_takeAuthority ha
    exact ⟨hends, path_of_begins hrest⟩
  · intro ha p hp
    have hnone : (takeAuthority (takeScheme s).2).1 = none := ha
    obtain ⟨ht, hno⟩ := takeAuthority_eq_none hnone
    rw [ht, hp] at hcut
    exact hno _ hcut.symm
  · intro d hd
    simpa using List.mem_takeWhile_imp hd

theorem query_ofText {x : Text} {query : Option Text} (hx : ∀ d ∈ x, endsPath d = false)
    (hquery : ∀ q ∈ query, .char '#' ∉ q) : (ofText (x ++ queryText query)).query = query := by
  have hsep := separated_ofText (x ++ queryText query)
  have htext := toText_ofText (x ++ queryText query)
  generalize ofText (x ++ queryText query) = c at hsep htext ⊢
  have hfront : ∀ d ∈ schemeText c.scheme ++ authorityText c.authority ++ c.path,
      endsPath d = false := fun d hd => Bool.eq_false_iff.2 fun hends => hsep.not_mem hends hd
  have hfirst := (takeWhile_append_of_begins hfront (begins_suffix c.query c.fragment)).2
  have hsecond := (takeWhile_append_of_begins hx (begins_suffix query none)).2
  have hsame : schemeText c.scheme ++ authorityText c.authority ++ c.path ++
      (queryText c.query ++ fragmentText c.fragment) = x ++
        (queryText query ++ fragmentText none) := by
    rw [← List.append_assoc, ← List.append_assoc]
    exact htext.trans (List.append_nil _).symm
  have hrest : queryText c.query ++ fragmentText c.fragment =
      queryText query ++ fragmentText none := by
    rw [← hfirst, hsame, hsecond]
  have htake := congrArg (fun s => (takeQuery s).1) hrest
  simpa only [takeQuery_queryText hsep.query, takeQuery_queryText hquery] using htake

end HttpUri.Components
