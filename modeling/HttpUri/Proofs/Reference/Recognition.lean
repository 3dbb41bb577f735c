import HttpUri.Proofs.Reference.Location
import HttpUri.Proofs.Reference.Paths

/-! The check of references accepts the texts of the grammar, two departures apart. -/
namespace HttpUri.Abnf
open scoped Computability
open Components

variable {c : Components} {s t : Text}

/-- The components are those of a derivation, or of a reference that a colon begins. -/
structure Derived (c : Components) : Prop where
  scheme : ∀ n ∈ c.scheme, n ∈ scheme
  authority : ∀ a ∈ c.authority, a ∈ authority ∧ c.path ∈ pathAbempty
  absolute : c.authority = none → c.scheme ≠ none →
    c.path ∈ pathAbsolute + pathRootless + pathEmpty
  relative : c.authority = none → c.scheme = none →
    c.path ∈ pathAbsolute + pathNoscheme + pathEmpty + sign ':' * (segment * pathAbempty)
  query : ∀ q ∈ c.query, q ∈ query
  fragment : ∀ f ∈ c.fragment, f ∈ fragment

theorem mem_suffix : s ∈ suffix ↔ ∃ q f, s = queryText q ++ fragmentText f ∧
    (∀ t ∈ q, t ∈ query) ∧ ∀ t ∈ f, t ∈ fragment := by
  unfold suffix
  rw [Language.mem_mul]
  simp only [mem_optional_sign (f := queryText) rfl fun _ => rfl,
    mem_optional_sign (f := fragmentText) rfl fun _ => rfl]
  constructor
  · intro h
    obtain ⟨_, ⟨q, rfl, hq⟩, _, ⟨f, rfl, hf⟩, rfl⟩ := h
    exact ⟨q, f, rfl, hq, hf⟩
  · intro h
    obtain ⟨q, f, rfl, hq, hf⟩ := h
    exact ⟨_, ⟨q, rfl, hq⟩, _, ⟨f, rfl, hf⟩, rfl⟩

theorem mem_netPath_add {l : Language CodePoint} : s ∈ netPath + l ↔
    ∃ a p, s = authorityText a ++ p ∧ (∀ u ∈ a, u ∈ authority ∧ p ∈ pathAbempty) ∧
      (a = none → p ∈ l) := by
  rw [Language.mem_add, netPath, mem_sign_mul]
  constructor
  · intro hm
    rcases hm with ⟨t, ht, rfl⟩ | h
    · obtain ⟨u, hu, rfl⟩ := mem_sign_mul.1 ht
      obtain ⟨a, ha, p, hp, rfl⟩ := Language.mem_mul.1 hu
      exact ⟨some a, p, rfl, fun b hb => Option.some.inj hb ▸ ⟨ha, hp⟩, nofun⟩
    · exact ⟨none, s, rfl, nofun, fun _ => h⟩
  · intro hm
    obtain ⟨a, p, rfl, ha, hp⟩ := hm
    cases a with
    | none => exact .inr (hp rfl)
    | some a =>
      obtain ⟨ha, hp⟩ := ha a rfl
      exact .inl ⟨_, cons_mem_sign_mul '/' (Language.append_mem_mul ha hp), rfl⟩

theorem mem_part_suffix {l : Language CodePoint} : s ∈ (netPath + l) * suffix ↔
    ∃ a p q f, s = authorityText a ++ p ++ queryText q ++ fragmentText f ∧
      (∀ u ∈ a, u ∈ authority ∧ p ∈ pathAbempty) ∧ (a = none → p ∈ l) ∧
        (∀ t ∈ q, t ∈ query) ∧ ∀ t ∈ f, t ∈ fragment := by
  rw [Language.mem_mul]
  constructor
  · intro h
    obtain ⟨v, hv, w, hw, rfl⟩ := h
    obtain ⟨a, p, rfl, ha, hp⟩ := mem_netPath_add.1 hv
    obtain ⟨q, f, rfl, hq, hf⟩ := mem_suffix.1 hw
    exact ⟨a, p, q, f, (List.append_assoc ..).symm, ha, hp, hq, hf⟩
  · intro h
    obtain ⟨a, p, q, f, rfl, ha, hp, hq, hf⟩ := h
    have hpart := mem_netPath_add.2 ⟨a, p, rfl, ha, hp⟩
    have hsuffix := mem_suffix.2 ⟨q, f, rfl, hq, hf⟩
    exact ⟨_, hpart, _, hsuffix, (List.append_assoc ..).symm⟩

theorem mem_scheme_mul {l : Language CodePoint} : s ∈ scheme * (sign ':' * l) ↔
    ∃ n t, n ∈ scheme ∧ t ∈ l ∧ s = schemeText (some n) ++ t := by
  rw [Language.mem_mul]
  constructor
  · intro h
    obtain ⟨n, hn, u, hu, rfl⟩ := h
    obtain ⟨t, ht, rfl⟩ := mem_sign_mul.1 hu
    exact ⟨n, t, hn, ht, (List.append_cons n ':' t)⟩
  · intro h
    obtain ⟨n, t, hn, ht, rfl⟩ := h
    exact ⟨n, hn, .char ':' :: t, cons_mem_sign_mul ':' ht, List.append_cons n ':' t⟩

theorem mem_references : s ∈ uriReference + colonReference ↔ ∃ c, toText c = s ∧ Derived c := by
  have hsplit : uriReference + colonReference =
      scheme * (sign ':' * ((netPath + (pathAbsolute + pathRootless + pathEmpty)) * suffix)) +
        (netPath + (pathAbsolute + pathNoscheme + pathEmpty +
          sign ':' * (segment * pathAbempty))) * suffix := by
    simp only [uriReference, uri, relativeRef, hierPart, relativePart, colonReference, add_mul,
      add_assoc]
  rw [hsplit, Language.mem_add, mem_scheme_mul, mem_part_suffix]
  constructor
  · intro hx
    rcases hx with ⟨n, t, hn, ht, rfl⟩ | ⟨a, p, q, f, rfl, ha, hp, hq, hf⟩
    · obtain ⟨a, p, q, f, rfl, ha, hp, hq, hf⟩ := mem_part_suffix.1 ht
      refine ⟨⟨some n, a, p, q, f⟩, by simp only [toText, List.append_assoc], ?_⟩
      exact ⟨fun m hm => Option.some.inj hm ▸ hn, ha, fun hnone _ => hp hnone,
        fun _ h => absurd h (Option.some_ne_none n), hq, hf⟩
    · refine ⟨⟨none, a, p, q, f⟩, rfl, ?_⟩
      exact ⟨fun m hm => absurd hm (Option.not_mem_none m), ha, fun _ h => absurd rfl h,
        fun hnone _ => hp hnone, hq, hf⟩
  · intro hx
    obtain ⟨⟨n, a, p, q, f⟩, rfl, hd⟩ := hx
    cases n with
    | none =>
      have hrelative : a = none → _ := fun h => hd.relative h rfl
      exact .inr ⟨a, p, q, f, rfl, hd.authority, hrelative, hd.query, hd.fragment⟩
    | some n =>
      have habsolute : a = none → _ := fun h => hd.absolute h (Option.some_ne_none n)
      have hrest := mem_part_suffix.2 ⟨a, p, q, f, rfl, hd.authority, habsolute, hd.query,
        hd.fragment⟩
      refine .inl ⟨n, _, hd.scheme n rfl, hrest, ?_⟩
      simp only [toText, List.append_assoc]

/-- The components lack what a reference has to have behind a scheme or two slashes. -/
def Lacking (c : Components) : Prop :=
  c.path = [] ∧ (c.authority = some [] ∨ c.authority = none ∧ c.scheme ≠ none)

theorem mem_bareScheme : s ∈ bareScheme ↔
    ∃ n q f, toText ⟨some n, none, [], q, f⟩ = s ∧ Derived ⟨some n, none, [], q, f⟩ := by
  unfold bareScheme
  rw [mem_scheme_mul]
  constructor
  · intro hx
    obtain ⟨n, t, hn, ht, rfl⟩ := hx
    obtain ⟨q, f, rfl, hq, hf⟩ := mem_suffix.1 ht
    refine ⟨n, q, f, by simp [toText, authorityText], ?_⟩
    exact ⟨fun m hm => Option.some.inj hm ▸ hn, fun a ha => absurd ha (Option.not_mem_none a),
      fun _ _ => .inr rfl, fun _ h => absurd h (Option.some_ne_none n), hq, hf⟩
  · intro hx
    obtain ⟨n, q, f, rfl, hd⟩ := hx
    have hsuffix := mem_suffix.2 ⟨q, f, rfl, hd.query, hd.fragment⟩
    exact ⟨n, _, hd.scheme n rfl, hsuffix, by simp [toText, authorityText]⟩

theorem mem_optional_scheme : s ∈ optional (scheme * sign ':') ↔
    ∃ n, s = schemeText n ∧ ∀ t ∈ n, t ∈ scheme := by
  rw [mem_optional, mem_mul_sign]
  constructor
  · intro h
    rcases h with rfl | ⟨t, ht, rfl⟩
    · exact ⟨none, rfl, nofun⟩
    · exact ⟨some t, rfl, fun u hu => Option.some.inj hu ▸ ht⟩
  · intro h
    obtain ⟨n | n, rfl, hn⟩ := h
    · exact .inl rfl
    · exact .inr ⟨n, hn n rfl, rfl⟩

theorem nil_mem_authority : [] ∈ authority := by
  have hhost : [] ∈ host := .inr (mem_regName.2 rfl)
  have hport : [] ∈ optional (sign ':' * port) := mem_optional.2 (.inl rfl)
  have huser : [] ∈ optional (userinfo * sign '@') := mem_optional.2 (.inl rfl)
  exact Language.append_mem_mul huser (Language.append_mem_mul hhost hport)

theorem mem_emptyLocation : s ∈ emptyLocation ↔
    ∃ n q f, toText ⟨n, some [], [], q, f⟩ = s ∧ Derived ⟨n, some [], [], q, f⟩ := by
  have hempty : ([] : Text) ∈ pathAbempty := Language.nil_mem_kstar _
  unfold emptyLocation
  rw [Language.mem_mul]
  constructor
  · intro hm
    obtain ⟨v, hv, t, ht, rfl⟩ := hm
    obtain ⟨n, rfl, hn⟩ := mem_optional_scheme.1 hv
    obtain ⟨u, hu, rfl⟩ := mem_sign_mul.1 ht
    obtain ⟨w, hw, rfl⟩ := mem_sign_mul.1 hu
    obtain ⟨q, f, rfl, hq, hf⟩ := mem_suffix.1 hw
    refine ⟨n, q, f, by simp [toText, authorityText], ?_⟩
    exact ⟨hn, fun a ha => Option.some.inj ha ▸ ⟨nil_mem_authority, hempty⟩,
      fun h => absurd h (Option.some_ne_none []), fun h => absurd h (Option.some_ne_none []),
      hq, hf⟩
  · intro hm
    obtain ⟨n, q, f, rfl, hd⟩ := hm
    have hscheme := mem_optional_scheme.2 ⟨n, rfl, hd.scheme⟩
    have hsuffix := mem_suffix.2 ⟨q, f, rfl, hd.query, hd.fragment⟩
    have hslashes := cons_mem_sign_mul '/' (cons_mem_sign_mul '/' hsuffix)
    exact ⟨_, hscheme, _, hslashes, by simp [toText, authorityText]⟩

theorem mem_lacking :
    s ∈ bareScheme + emptyLocation ↔ ∃ c, toText c = s ∧ Derived c ∧ Lacking c := by
  rw [Language.mem_add, mem_bareScheme, mem_emptyLocation]
  constructor
  · intro h
    rcases h with ⟨n, q, f, hs, hd⟩ | ⟨n, q, f, hs, hd⟩
    · exact ⟨_, hs, hd, rfl, .inr ⟨rfl, Option.some_ne_none n⟩⟩
    · exact ⟨_, hs, hd, rfl, .inl rfl⟩
  · intro h
    obtain ⟨⟨n, a, p, q, f⟩, hs, hd, hp, ha⟩ := h
    have heq : p = [] := hp
    subst heq
    rcases ha with ha | ⟨ha, hn⟩
    · have heq : a = some [] := ha
      subst heq
      exact .inr ⟨n, q, f, hs, hd⟩
    · have heq : a = none := ha
      subst heq
      obtain ⟨m, rfl⟩ := Option.ne_none_iff_exists'.1 hn
      exact .inl ⟨m, q, f, hs, hd⟩

theorem Derived.isEncoded_path (hd : Derived c) :
    Grammar.isEncoded Grammar.isPathChar c.path = true := by
  by_cases hau : c.authority = none
  · by_cases hsc : c.scheme = none
    · exact (mem_relativePath.1 (hd.relative hau hsc)).1
    · exact (mem_hierPath.1 (hd.absolute hau hsc)).1
  · obtain ⟨a, h⟩ := Option.ne_none_iff_exists'.1 hau
    exact (mem_pathAbempty.1 (hd.authority a h).2).1

theorem fits_iff : Grammar.fits c = true ↔
    (∀ n ∈ c.scheme, n ∈ scheme) ∧ (∀ a ∈ c.authority, Grammar.isAuthority a = true) ∧
      Grammar.isEncoded Grammar.isPathChar c.path = true ∧ (∀ q ∈ c.query, q ∈ query) ∧
        (∀ f ∈ c.fragment, f ∈ fragment) ∧ ¬ Lacking c := by
  obtain ⟨n, a, p, q, f⟩ := c
  have hlacking : ¬ Lacking ⟨n, a, p, q, f⟩ ↔
      (∀ t ∈ n, a.isSome = true ∨ p ≠ []) ∧ ∀ t ∈ a, t ≠ [] ∨ p ≠ [] := by
    cases n <;> cases a <;> simp [Lacking, or_iff_not_imp_right]
  rw [hlacking, Grammar.fits_eq_true]
  simp only [mem_scheme, mem_query, mem_fragment]
  constructor
  · intro hm
    obtain ⟨hn, ha, hp, hq, hf⟩ := hm
    exact ⟨fun t h => (hn t h).1, fun t h => (ha t h).2, hp, hq, hf, fun t h => (hn t h).2,
      fun t h => (ha t h).1⟩
  · intro hm
    obtain ⟨hn, ha, hp, hq, hf, hnl, hal⟩ := hm
    exact ⟨fun t h => ⟨hn t h, hnl t h⟩, fun t h => ⟨hal t h, ha t h⟩, hp, hq, hf⟩

/-- For components that nothing blurs, the checks of the parts are the rules of the parts. -/
theorem derived_iff (hc : c.Separated)
    (ha : ∀ a ∈ c.authority, ¬ [.char '[', .char '%'].Sublist a) :
    Derived c ∧ ¬ Lacking c ↔ Grammar.fits c = true := by
  rw [fits_iff]
  constructor
  · intro hm
    obtain ⟨hd, hl⟩ := hm
    refine ⟨hd.scheme, ?_, hd.isEncoded_path, hd.query, hd.fragment, hl⟩
    exact fun a h => (mem_authority (ha a h)).1 (hd.authority a h).1
  · intro hm
    obtain ⟨hsc, hau, hp, hq, hf, hl⟩ := hm
    refine ⟨⟨hsc, ?_, ?_, ?_, hq, hf⟩, hl⟩
    · intro a h
      exact ⟨(mem_authority (ha a h)).2 (hau a h),
        mem_pathAbempty.2 ⟨hp, (hc.authority a h).2⟩⟩
    · exact fun h _ => mem_hierPath.2 ⟨hp, hc.noAuthority h⟩
    · exact fun h hn => mem_relativePath.2 ⟨hp, hc.noAuthority h, hc.noScheme hn h⟩

private theorem free_of_mem_userPart {u : Text} (h : u ∈ optional (userinfo * sign '@')) :
    ∀ d ∈ u, endsAuthority d = false := by
  rcases mem_optional.1 h with rfl | h
  · exact fun d hd => absurd hd List.not_mem_nil
  · obtain ⟨w, hw, rfl⟩ := mem_mul_sign.1 h
    have hw := mem_userinfo.1 hw
    refine endsAuthority_eq_false ⟨?_, ?_, ?_⟩ <;>
      exact fun hd => (List.mem_append.1 hd).elim (Grammar.not_mem_isEncoded hw (by decide))
        (by decide)

/-- An address in brackets: only behind a percent sign can it hold what ends an authority. -/
private theorem free_or_zone_of_mem_ipLiteral {t : Text} (h : t ∈ ipLiteral) :
    (∀ d ∈ t, endsAuthority d = false) ∨
      ∃ x y, t = x ++ y ∧ [.char '[', .char '%'].Sublist x ∧ ∀ d ∈ x, endsAuthority d = false := by
  obtain ⟨address, hip, rfl⟩ := mem_ipLiteral.1 h
  obtain ⟨name, zone, rfl, hchars, -, hzone⟩ := Ip.mem_isIpv6 hip
  have hname : .char '/' ∉ name ∧ .char '?' ∉ name ∧ .char '#' ∉ name :=
    ⟨Text.not_mem_of_forall hchars rfl, Text.not_mem_of_forall hchars rfl,
      Text.not_mem_of_forall hchars rfl⟩
  rcases hzone with rfl | ⟨z, rfl⟩
  · refine .inl (endsAuthority_eq_false ?_)
    simpa using hname
  · refine .inr ⟨.char '[' :: (name ++ [.char '%']), z ++ [.char ']'], by simp, ?_, ?_⟩
    · refine .cons_cons _ (List.singleton_sublist.2 ?_)
      simp
    · apply endsAuthority_eq_false
      simpa using hname

theorem separated_authority {a : Text} (h : a ∈ authority) :
    (∀ d ∈ a, endsAuthority d = false) ∨
      ∃ x y, a = x ++ y ∧ [.char '[', .char '%'].Sublist x ∧ ∀ d ∈ x, endsAuthority d = false := by
  obtain ⟨u, hu, r, hr, rfl⟩ := Language.mem_mul.1 h
  obtain ⟨t, ht, v, hv, rfl⟩ := Language.mem_mul.1 hr
  obtain ⟨p, rfl, hp⟩ := mem_optional_port.1 hv
  have huser := free_of_mem_userPart hu
  have hport := AuthorityParts.free_portText hp
  have hhost : (∀ d ∈ t, endsAuthority d = false) ∨
      ∃ x y, t = x ++ y ∧ [.char '[', .char '%'].Sublist x ∧ ∀ d ∈ x, endsAuthority d = false := by
    rcases ht with ht | ht
    · exact free_or_zone_of_mem_ipLiteral ht
    · exact .inl (Grammar.free_of_name (mem_regName.1 ht))
  rcases hhost with hfree | ⟨x, y, rfl, hzone, hx⟩
  · exact .inl (List.forall_mem_append.2 ⟨huser, List.forall_mem_append.2 ⟨hfree, hport⟩⟩)
  · refine .inr ⟨u ++ x, y ++ AuthorityParts.portText p, by simp, ?_, ?_⟩
    · exact hzone.trans (List.sublist_append_right u x)
    · exact List.forall_mem_append.2 ⟨huser, hx⟩

/-- A derivation gives the division of its text, unless an address in it names a zone. -/
theorem Derived.separated (hd : Derived c)
    (h : ∀ a ∈ (ofText (toText c)).authority, ¬ [.char '[', .char '%'].Sublist a) :
    c.Separated := by
  have hscheme : ∀ n ∈ c.scheme, n ≠ [] ∧ ∀ d ∈ n, endsScheme d = false := fun n hn =>
    Grammar.separated_of_isScheme (mem_scheme.1 (hd.scheme n hn))
  refine ⟨hscheme, ?_, ?_, ?_, ?_, ?_⟩
  · exact fun hn ha => (mem_relativePath.1 (hd.relative ha hn)).2.2
  · intro a ha
    refine ⟨?_, (mem_pathAbempty.1 (hd.authority a ha).2).2⟩
    rcases separated_authority (hd.authority a ha).1 with hfree | ⟨x, y, rfl, hzone, hx⟩
    · exact hfree
    · have htext : toText c = schemeText c.scheme ++ .char '/' :: .char '/' ::
          (x ++ (y ++ (c.path ++
          (queryText c.query ++ fragmentText c.fragment)))) := by
        unfold toText
        rw [ha]
        simp [authorityText]
      have hau := htext ▸ authority_ofText hscheme hx
      exact absurd (hzone.trans (List.sublist_append_left _ _)) (h _ hau)
  · intro ha
    by_cases hn : c.scheme = none
    · exact (mem_relativePath.1 (hd.relative ha hn)).2.1
    · exact (mem_hierPath.1 (hd.absolute ha hn)).2
  · have hpath := hd.isEncoded_path
    exact endsPath_eq_false
      ⟨Grammar.not_mem_isEncoded hpath (by decide), Grammar.not_mem_isEncoded hpath (by decide)⟩
  · exact fun q hq => Grammar.not_mem_isEncoded (mem_query.1 (hd.query q hq)) (by decide)

/-- The check accepts just the references of the grammar and those that a colon begins, but none
that lacks what has to stand behind a scheme or two slashes. -/
theorem isReference_iff (h : ∀ a ∈ (ofText s).authority, ¬ [.char '[', .char '%'].Sublist a) :
    Grammar.isReference s = true ↔
      (s ∈ uriReference ∨ s ∈ colonReference) ∧ s ∉ bareScheme ∧ s ∉ emptyLocation := by
  have hunique : ∀ c, toText c = s → Derived c → c = ofText s := by
    rintro c rfl hd
    exact (ofText_toText (hd.separated h)).symm
  unfold Grammar.isReference
  rw [← derived_iff (separated_ofText s) h, ← not_or, ← Language.mem_add,
    ← Language.mem_add, mem_references, mem_lacking]
  constructor
  · intro hm
    obtain ⟨hd, hl⟩ := hm
    refine ⟨⟨ofText s, toText_ofText s, hd⟩, ?_⟩
    intro hm
    obtain ⟨c, hs, hc, hlc⟩ := hm
    have heq := hunique c hs hc
    subst heq
    exact hl hlc
  · intro hm
    obtain ⟨⟨c, hs, hc⟩, hno⟩ := hm
    have heq := hunique c hs hc
    subst heq
    exact ⟨hc, fun hl => hno ⟨_, hs, hc, hl⟩⟩

/-- An address in brackets between user info and a port. -/
theorem isReference_iff_of_address :
    let s := "http://me@[::1]:80/a%20b?x=/#y".points
    (∀ a ∈ (ofText s).authority, ¬ [.char '[', .char '%'].Sublist a) ∧
      (s ∈ uriReference ∨ s ∈ colonReference) ∧ s ∉ bareScheme ∧ s ∉ emptyLocation := by
  intro s
  have h : ∀ a ∈ (ofText s).authority, ¬ [.char '[', .char '%'].Sublist a := by
    intro a ha
    have heq := Option.some.inj ha
    subst heq
    decide
  exact ⟨h, (isReference_iff h).1 (by decide)⟩

end HttpUri.Abnf
