import HttpUri.Proofs.Authority.Composed
import HttpUri.Proofs.Query.Encodable
import HttpUri.Proofs.Url.Encoding

/-! The URL that a builder composes reads back as the components it was composed of. -/
namespace HttpUri

namespace Grammar
open Components

theorem bracket_not_mem_rest {s : Text} (h : isReference s = true) :
    .char ']' ∉ (takeAuthority (takeScheme s).2).2 := by
  obtain ⟨-, -, hpath, hquery, hfragment⟩ := fits_eq_true.1 h
  have hp : .char ']' ∉ (ofText s).path := not_mem_isEncoded hpath (by decide)
  have hq : .char ']' ∉ queryText (ofText s).query :=
    Text.not_mem_signed rfl (fun _ => rfl) (by decide) fun q hq =>
      not_mem_isEncoded (hquery q hq) (by decide)
  have hf : .char ']' ∉ fragmentText (ofText s).fragment :=
    Text.not_mem_signed rfl (fun _ => rfl) (by decide) fun f hf =>
      not_mem_isEncoded (hfragment f hf) (by decide)
  rw [takeAuthority_rest, List.mem_append, List.mem_append, not_or, not_or]
  exact ⟨hp, hq, hf⟩

theorem free_of_bracket {n : Option Text} {x t : Text} (hn : ∀ s ∈ n, isScheme s = true)
    (h : isReference (schemeText n ++ .char '/' :: .char '/' :: (x ++ .char ']' :: t)) = true) :
    ∀ d ∈ x, endsAuthority d = false := by
  have hscheme := takeScheme_schemeText (t := .char '/' :: .char '/' :: (x ++ .char ']' :: t))
    (fun s hs => separated_of_isScheme (hn s hs)) fun _ => rfl
  have hrest := bracket_not_mem_rest h
  rw [hscheme] at hrest
  change (.char ']') ∉ (x ++ .char ']' :: t).dropWhile (!endsAuthority ·) at hrest
  intro d hd
  refine Bool.eq_false_iff.2 fun hends => hrest ?_
  have hdrop : x.dropWhile (!endsAuthority ·) ≠ [] := by
    intro hnil
    have hall := List.dropWhile_eq_nil_iff.1 hnil d hd
    rw [hends] at hall
    exact absurd hall (by decide)
  rw [List.dropWhile_append, if_neg (by simpa using hdrop)]
  simp

end Grammar

namespace Builder
open Components (authorityText)
variable {b : Builder} {u : Url}

def portDigits (b : Builder) : Option Text :=
  if 0 ≤ b.port then some (Numeral.ofInt b.port) else none

def location (b : Builder) : Option Text :=
  b.host.map fun host => bracketed host ++ AuthorityParts.portText b.portDigits

@[simp] theorem encoding_eq_ok {α : Type} {charset : Text} {x : Except CodecError α} {a : α} :
    encoding charset x = .ok a ↔ x = .ok a := by
  cases x with
  | ok b => simp [encoding]
  | error e => cases e <;> simp [encoding]

@[simp] theorem reading_eq_ok {text : Text} {x : Except Error Url} :
    reading text x = .ok u ↔ x = .ok u := by
  cases x with
  | ok v => rfl
  | error e => cases e <;> simp [reading]

theorem schemeText_eq_ok {s : Text} : b.schemeText = .ok s ↔
    s = Components.schemeText b.scheme ∧ ∀ n ∈ b.scheme, Grammar.isScheme n = true := by
  unfold schemeText
  cases b.scheme with
  | none =>
    refine ⟨fun h => ⟨(Except.ok.inj h).symm, nofun⟩, fun h => ?_⟩
    rw [h.1]
    rfl
  | some n =>
    simp only [Option.mem_def, Option.some.injEq, forall_eq']
    constructor
    · intro h
      split at h
      · next hn => exact ⟨(Except.ok.inj h).symm, hn⟩
      · exact nomatch h
    · intro h
      rw [if_pos h.2, h.1]
      rfl

theorem hostText_eq_ok {s : Text} : b.hostText = .ok s ↔
    s = authorityText b.location ∧ ∀ x ∈ b.host, x ≠ [] ∧ Grammar.isHost x = true := by
  unfold hostText location
  cases b.host with
  | none =>
    refine ⟨fun h => ⟨(Except.ok.inj h).symm, nofun⟩, fun h => ?_⟩
    rw [h.1]
    rfl
  | some x =>
    have htext : .char '/' :: .char '/' :: bracketed x ++
        (if 0 ≤ b.port then .char ':' :: Numeral.ofInt b.port else []) =
          authorityText (some (bracketed x ++ AuthorityParts.portText b.portDigits)) := by
      by_cases hp : 0 ≤ b.port
      · simp [authorityText, portDigits, hp, AuthorityParts.portText]
      · simp [authorityText, portDigits, hp, AuthorityParts.portText]
    have hcheck : (decide (x ≠ []) && Grammar.isHost x) = true ↔
        x ≠ [] ∧ Grammar.isHost x = true := by simp
    simp only [Option.mem_def, Option.some.injEq, forall_eq', htext, hcheck, Option.map_some]
    constructor
    · intro h
      split at h
      · next hx => exact ⟨(Except.ok.inj h).symm, hx⟩
      · cases h
    · intro h
      rw [if_pos h.2, h.1]

def composed (b : Builder) (path : Text) (query : Option Text) : Components :=
  ⟨b.scheme, b.location, path, query, none⟩

/-- A path that can be taken for nothing else. With neither scheme nor host, some other delimiter
stands before any colon of it; behind a host it is empty or begins with a slash. -/
structure Apart (b : Builder) (path : Text) : Prop where
  scheme : b.scheme = none → b.host = none →
    ∀ x y : Text, path = x ++ .char ':' :: y → x ≠ [] → ∃ d ∈ x, Components.endsScheme d = true
  host : b.host.isSome = true → path = [] ∨ ∃ t, path = .char '/' :: t

theorem apart_of_slash {path : Text} (h : ∃ t, path = .char '/' :: t) : b.Apart path := by
  obtain ⟨t, rfl⟩ := h
  exact ⟨fun _ _ => Components.ends_of_head rfl, fun _ => .inr ⟨t, rfl⟩⟩

/-- The encoded path is apart from the other components. -/
def Detached [Codecs] (b : Builder) : Prop :=
  ∀ path, encodePath b.charset b.rootedPath = .ok path → b.Apart path

theorem detached_of_slash [Codecs] {codec : Codec} (hname : Codec.find b.charset = .ok codec)
    (hkeeps : codec.KeepsSlash) (hslash : ∃ t, b.rootedPath = .char '/' :: t) : b.Detached := by
  intro path hpath
  obtain ⟨t, ht⟩ := hslash
  rw [ht] at hpath
  exact apart_of_slash (encodePath_slash hname hkeeps hpath)

theorem rootedPath_of_host (h : b.host.isSome = true) :
    b.rootedPath = [] ∨ ∃ t, b.rootedPath = .char '/' :: t := by
  unfold rootedPath
  dsimp only
  split
  · exact .inr ⟨_, rfl⟩
  · next hno =>
    by_cases hnil : b.path.getD [] = []
    · exact .inl hnil
    · have hhead : (b.path.getD []).head? = some (.char '/') :=
        by_contra fun hne => hno ⟨h, hnil, hne⟩
      exact .inr (List.head?_eq_some_iff.1 hhead)

/-- Behind a host, the built-in charsets leave nothing of the path to be taken for something else.
-/
theorem detached_of_charset [Codecs] {cs : Charset} (hcs : Charset.ofName? b.charset = some cs)
    (hhost : b.host.isSome = true) : b.Detached := by
  rcases rootedPath_of_host hhost with hnil | hslash
  · intro path hpath
    rw [hnil, encodePath_nil] at hpath
    obtain rfl : [] = path := Except.ok.inj hpath
    exact ⟨fun _ _ x y heq => by simp at heq, fun _ => .inl rfl⟩
  · exact detached_of_slash (Codec.find_of_ofName? hcs) cs.keepsSlash hslash

theorem rootedPath_of_no_host (h : b.host = none) : b.rootedPath = b.path.getD [] := by
  unfold rootedPath
  rw [h]
  exact if_neg fun hhost => Bool.false_ne_true hhost.1

/-- What goes into a composed text. Without a host, two slashes do not begin the path. -/
structure Ingredients [Codecs] (b : Builder) (path : Text) (query : Option Text) : Prop where
  encoded : encodePath b.charset b.rootedPath = .ok path
  formatted : b.queryText = .ok query
  scheme : ∀ n ∈ b.scheme, Grammar.isScheme n = true
  host : ∀ x ∈ b.host, x ≠ [] ∧ Grammar.isHost x = true
  slashes : b.host = none → ∀ t, path ≠ .char '/' :: .char '/' :: t

/-- The end of composing: the parts are there, and the text of them is parsed. -/
def finish (b : Builder) (path : Text) (query : Option Text) : Except Error Url :=
  if b.host.isNone && (Text.after? [.char '/', .char '/'] path).isSome then
    .error (.build (.slashedPath path))
  else reading (b.composed path query).toText (Url.parse (b.composed path query).toText)

theorem build_eq_finish [Codecs] (b : Builder) : b.build = (do
    let _ ← b.schemeText
    let _ ← b.hostText
    let path ← encoding b.charset (encodePath b.charset b.rootedPath)
    let query ← encoding b.charset b.queryText
    b.finish path query) := by
  have htext (path : Text) (query : Option Text) : (b.composed path query).toText =
      Components.schemeText b.scheme ++ authorityText b.location ++ path ++
        Components.queryText query := by
    unfold Components.toText composed Components.fragmentText
    rw [List.append_nil]
  unfold build
  refine Outcome.bind_congr fun scheme hs => ?_
  refine Outcome.bind_congr fun host hh => ?_
  refine Outcome.bind_congr fun path _ => ?_
  refine Outcome.bind_congr fun query _ => ?_
  obtain ⟨rfl, -⟩ := schemeText_eq_ok.1 hs
  obtain ⟨rfl, -⟩ := hostText_eq_ok.1 hh
  unfold finish
  rw [htext]
  by_cases hslash : (b.host.isNone && (Text.after? [.char '/', .char '/'] path).isSome) = true
  · exact (if_pos hslash).trans (if_pos hslash).symm
  · cases query <;> exact (if_neg hslash).trans (if_neg hslash).symm

theorem finish_of_slashes {path : Text} {query : Option Text}
    (h : b.host = none → ∀ t, path ≠ .char '/' :: .char '/' :: t) : b.finish path query =
      reading (b.composed path query).toText (Url.parse (b.composed path query).toText) := by
  refine if_neg fun hslash => ?_
  obtain ⟨hnone, hsome⟩ := Bool.and_eq_true_iff.1 hslash
  obtain ⟨t, ht⟩ := Option.isSome_iff_exists.1 hsome
  exact h (Option.isNone_iff_eq_none.1 hnone) t (Text.after?_eq_some.1 ht)

theorem slashes_of_finish {path : Text} {query : Option Text}
    (h : ∀ e, b.finish path query = .error e → e ≠ .build (.slashedPath path)) :
    b.host = none → ∀ t, path ≠ .char '/' :: .char '/' :: t := by
  rintro hn t rfl
  refine h _ (if_pos ?_) rfl
  simp [hn, Text.after?]

theorem Ingredients.build_eq [Codecs] {path : Text} {query : Option Text}
    (h : Ingredients b path query) :
    b.build =
      reading (b.composed path query).toText (Url.parse (b.composed path query).toText) := by
  rw [build_eq_finish, schemeText_eq_ok.2 ⟨rfl, h.scheme⟩, hostText_eq_ok.2 ⟨rfl, h.host⟩,
    encoding_eq_ok.2 h.encoded, encoding_eq_ok.2 h.formatted, ← finish_of_slashes h.slashes]
  rfl

theorem build_eq_ok [Codecs] : b.build = .ok u ↔ ∃ path query, Ingredients b path query ∧
    Url.parse (b.composed path query).toText = .ok u := by
  constructor
  · intro h
    rw [build_eq_finish] at h
    obtain ⟨scheme, hs, h⟩ := Outcome.bind_eq_ok.1 h
    obtain ⟨host, hh, h⟩ := Outcome.bind_eq_ok.1 h
    obtain ⟨path, hp, h⟩ := Outcome.bind_eq_ok.1 h
    obtain ⟨query, hq, h⟩ := Outcome.bind_eq_ok.1 h
    have hslashes := slashes_of_finish fun e he => nomatch he.symm.trans h
    rw [finish_of_slashes hslashes] at h
    exact ⟨path, query, ⟨encoding_eq_ok.1 hp, encoding_eq_ok.1 hq, (schemeText_eq_ok.1 hs).2,
      (hostText_eq_ok.1 hh).2, hslashes⟩, reading_eq_ok.1 h⟩
  · intro h
    obtain ⟨path, query, hin, hparse⟩ := h
    rw [hin.build_eq]
    exact reading_eq_ok.2 hparse

@[simp] theorem all_portDigits (b : Builder) : b.portDigits.all (·.all CodePoint.isDigit) = true :=
  all_isDigit_ofInt b.port

theorem free_encodePath [Codecs] {charset p path : Text} (h : encodePath charset p = .ok path) :
    ∀ d ∈ path, Components.endsPath d = false :=
  Components.endsPath_eq_false ⟨not_mem_encodePath h (by decide), not_mem_encodePath h (by decide)⟩

theorem isEncoded_queryText [Codecs] {query : Option Text} (h : b.queryText = .ok query) :
    ∀ q ∈ query, Grammar.isEncoded Grammar.isQueryChar q = true := by
  intro q hq
  unfold queryText at h
  split at h
  · exact nomatch (Except.ok.inj h).trans hq
  · exact nomatch (Except.ok.inj h).trans hq
  · obtain ⟨r, hr, rfl⟩ := Outcome.map_eq_ok.1 h
    obtain rfl : r = q := Option.some.inj hq
    exact Query.isEncoded_format hr

theorem hash_not_mem_queryText [Codecs] {query : Option Text} (h : b.queryText = .ok query) :
    ∀ q ∈ query, .char '#' ∉ q := fun q hq =>
  Grammar.not_mem_isEncoded (isEncoded_queryText h q hq) (by decide)

theorem noQuery_of_queryText [Codecs] {query : Option Text} (h : b.queryText = .ok query)
    (hempty : b.parameters = none ∨ b.parameters = some []) : query = none := by
  have hq : b.queryText = .ok none := by
    rcases hempty with hp | hp <;> rw [queryText, hp]
  exact Except.ok.inj (h.symm.trans hq)

theorem format_of_queryText [Codecs] {query : Option Text} (h : b.queryText = .ok query)
    {params : List Parameter} (hp : params ∈ b.parameters) (hne : params ≠ []) :
    ∃ q, Query.format params b.charset = .ok q ∧ query = some q := by
  have hsome : b.parameters = some params := hp
  have hq : b.queryText = (Query.format params b.charset).map some := by
    rw [queryText, hsome]
    cases params with
    | nil => exact absurd rfl hne
    | cons p rest => rfl
  obtain ⟨q, hformat, rfl⟩ := Outcome.map_eq_ok.1 (hq.symm.trans h)
  exact ⟨q, hformat, rfl⟩

namespace Ingredients
variable {path : Text} {query : Option Text}

theorem separated [Codecs] (h : Ingredients b path query) (hapart : b.Apart path)
    (hfree : ∀ a ∈ b.location, ∀ d ∈ a, Components.endsAuthority d = false) :
    (b.composed path query).Separated := by
  refine ⟨?_, ?_, ?_, ?_, free_encodePath h.encoded, hash_not_mem_queryText h.formatted⟩
  · exact fun n hn => Grammar.separated_of_isScheme (h.scheme n hn)
  · exact fun hn ha => hapart.scheme hn (Option.map_eq_none_iff.1 ha)
  · intro a ha
    have hhost : b.host.isSome = true := Option.isSome_map.symm.trans (Option.isSome_of_mem ha)
    exact ⟨hfree a ha, hapart.host hhost⟩
  · exact fun ha => h.slashes (Option.map_eq_none_iff.1 ha)

theorem free_location [Codecs] (h : Ingredients b path query)
    (href : Grammar.isReference (b.composed path query).toText = true) :
    ∀ a ∈ b.location, ∀ d ∈ a, Components.endsAuthority d = false := by
  intro a ha
  obtain ⟨host, hb, rfl⟩ := Option.map_eq_some_iff.1 ha
  have hport := AuthorityParts.free_portText b.all_portDigits
  have hclose : ∀ d ∈ [.char ']'], Components.endsAuthority d = false :=
    List.forall_mem_singleton.2 rfl
  refine List.forall_mem_append.2 ⟨?_, hport⟩
  obtain ⟨name, -, ⟨-, heq⟩ | ⟨hreg, -, ⟨-, heq⟩ | heq⟩⟩ :=
    Grammar.bracketed_of_isHost (h.host host hb).2
  · have htext : (b.composed path query).toText =
        Components.schemeText b.scheme ++ .char '/' :: .char '/' ::
          (.char '[' :: name ++ .char ']' ::
          (AuthorityParts.portText b.portDigits ++ path ++ Components.queryText query)) := by
      simp [composed, Components.toText, location, hb, heq, authorityText, Components.fragmentText]
    rw [htext] at href
    have hfree := Grammar.free_of_bracket h.scheme href
    rw [heq, ← List.cons_append]
    exact List.forall_mem_append.2 ⟨hfree, hclose⟩
  · rw [heq]
    exact Grammar.free_of_name hreg
  · have hopen : Components.endsAuthority '[' = false := rfl
    rw [heq]
    refine List.forall_mem_cons.2 ⟨hopen, ?_⟩
    exact List.forall_mem_append.2 ⟨Grammar.free_of_name hreg, hclose⟩

/-- Nothing in host, path or query moves a boundary of the composed text. -/
theorem ofText_toText [Codecs] (h : Ingredients b path query) (hapart : b.Apart path)
    (href : Grammar.isReference (b.composed path query).toText = true) :
    Components.ofText (b.composed path query).toText = b.composed path query :=
  Components.ofText_toText (h.separated hapart (h.free_location href))

theorem isAuthority_location [Codecs] (h : Ingredients b path query) (hapart : b.Apart path)
    (href : Grammar.isReference (b.composed path query).toText = true) :
    ∀ a ∈ b.location, Grammar.isAuthority a = true := by
  have hfits : Grammar.fits (b.composed path query) = true := h.ofText_toText hapart href ▸ href
  exact fun a ha => ((Grammar.fits_eq_true.1 hfits).2.1 a ha).2

theorem ofText_location [Codecs] (h : Ingredients b path query)
    (hauth : ∀ a ∈ b.location, Grammar.isAuthority a = true)
    (hcheck : UrlParts.checkBrackets (UrlParts.withoutBreaks (b.location.getD [])) = .ok ())
    (hdigits : ∀ d ∈ (AuthorityParts.ofText (UrlParts.withoutBreaks (b.location.getD []))).port,
      Numeral.isDigits d = true) :
    (b.host = none →
      AuthorityParts.ofText (UrlParts.withoutBreaks (b.location.getD [])) = ⟨none, [], none⟩) ∧
    ∀ host ∈ b.host, ∃ name, Grammar.unbracket? host = some name ∧
      UrlParts.withoutBreaks name ≠ [] ∧
        (Ip.isIpv6 name = true ∧ .char '%' ∈ name ∨ UrlParts.withoutBreaks name = name) ∧
          AuthorityParts.ofText (UrlParts.withoutBreaks (b.location.getD [])) =
            ⟨none, UrlParts.withoutBreaks name, b.portDigits⟩ := by
  constructor
  · intro hb
    have hl : b.location = none := by rw [location, hb]; rfl
    rw [hl]
    rfl
  · intro host hb
    obtain ⟨hne, hok⟩ := h.host host hb
    have hl : b.location = some (bracketed host ++ AuthorityParts.portText b.portDigits) :=
      Option.map_eq_some_iff.2 ⟨host, hb, rfl⟩
    rw [hl, Option.getD_some] at hcheck hdigits ⊢
    exact AuthorityParts.ofText_composed hne hok b.all_portDigits (hauth _ hl) hcheck hdigits

end Ingredients

/-- The text of a composed URL divides into what went into it. -/
theorem divided_of_build [Codecs] (h : b.build = .ok u) (hpath : b.Detached) :
    ∃ path query, Ingredients b path query ∧ Url.parse (b.composed path query).toText = .ok u ∧
      Components.ofText (b.composed path query).toText = b.composed path query ∧
        ∀ a ∈ b.location, Grammar.isAuthority a = true := by
  obtain ⟨path, query, hin, hparse⟩ := build_eq_ok.1 h
  have href := (Url.parse_eq_ok rfl hparse).1
  have hapart := hpath path hin.encoded
  exact ⟨path, query, hin, hparse, hin.ofText_toText hapart href,
    hin.isAuthority_location hapart href⟩

theorem parsePort_portDigits {s : Text} {port : Option Nat}
    (h : parsePort b.portDigits s = .ok port) :
    port = if 0 ≤ b.port then some b.port.toNat else none := by
  unfold portDigits at h
  split at h
  · next hp =>
    obtain ⟨n, hn⟩ := Int.eq_ofNat_of_zero_le hp
    rw [hn] at h ⊢
    have hne : Numeral.ofInt n ≠ [] := Numeral.ofNat_ne_nil n
    obtain ⟨-, -, rfl⟩ := parsePort_eq_ok h hne
    exact congrArg some (Numeral.value_ofNat n)
  · next hp =>
    rw [if_neg hp]
    exact (Except.ok.inj h).symm

/-- A URL has the components that a builder holds. Line breaks can vanish from the zone of its
host. -/
structure ComposedOf [Codecs] (b : Builder) (u : Url) : Prop where
  scheme : u.scheme = b.scheme
  userInfo : u.userInfo = none
  fragment : u.fragment = none
  path : encodePath b.charset b.rootedPath = .ok u.path
  query : b.queryText = .ok u.query
  noHost : b.host = none → u.host = none ∧ u.port = none
  host : ∀ host ∈ b.host, u.port = (if 0 ≤ b.port then some b.port.toNat else none) ∧
    ∃ name, Grammar.unbracket? host = some name ∧ u.host = some (UrlParts.withoutBreaks name) ∧
      (Ip.isIpv6 name = true ∧ .char '%' ∈ name ∨ UrlParts.withoutBreaks name = name)

/-- A URL has just the components that went in, if nothing else is read out of its path. -/
theorem composedOf_of_build [Codecs] (h : b.build = .ok u) (hpath : b.Detached) :
    b.ComposedOf u := by
  obtain ⟨path, query, hin, hparse, hc, hauth⟩ := divided_of_build h hpath
  obtain ⟨-, hcheck, hport, hsc, huser, hh, hp, hq, hf⟩ := Url.parse_eq_ok hc hparse
  have hau : (b.composed path query).authority = b.location := rfl
  rw [hau] at hcheck hport huser hh
  obtain ⟨hnone, hsome⟩ := hin.ofText_location hauth hcheck (isDigits_of_parsePort hport)
  refine ⟨hsc, ?_, hf, hp ▸ hin.encoded, hq ▸ hin.formatted, ?_, ?_⟩
  · rw [huser]
    cases hb : b.host with
    | none => rw [hnone hb]
    | some host =>
      obtain ⟨name, -, -, -, hparts⟩ := hsome host hb
      rw [hparts]
  · intro hb
    rw [hnone hb] at hh hport
    exact ⟨hh, (Except.ok.inj hport).symm⟩
  · intro host hb
    obtain ⟨name, hname, hne, hzone, hparts⟩ := hsome host hb
    rw [hparts] at hh hport
    exact ⟨parsePort_portDigits hport, name, hname, hh.trans (if_neg hne), hzone⟩

theorem query_of_build [Codecs] (h : b.build = .ok u) : b.queryText = .ok u.query := by
  obtain ⟨path, query, hin, hparse⟩ := build_eq_ok.1 h
  obtain ⟨href, -, -, -, -, -, -, hu, -⟩ := Url.parse_eq_ok rfl hparse
  have hfront : ∀ d ∈ Components.schemeText b.scheme ++ authorityText b.location ++ path,
      Components.endsPath d = false := fun d hd => Bool.eq_false_iff.2 fun hends =>
    Components.not_mem_front (fun n hn => (Grammar.separated_of_isScheme (hin.scheme n hn)).2)
      (hin.free_location href) (free_encodePath hin.encoded) hends hd
  have hquery := Components.query_ofText hfront (hash_not_mem_queryText hin.formatted)
  rw [hu, composed, Components.toText, Components.fragmentText, List.append_nil, hquery]
  exact hin.formatted

theorem length_of_mem_portDigits (hport : b.port < 10 ^ Numeral.digitLimit) {d : Text}
    (hd : d ∈ b.portDigits) : d.length ≤ Numeral.digitLimit := by
  unfold portDigits at hd
  split at hd
  · next hp =>
    obtain rfl : Numeral.ofInt b.port = d := Option.some.inj hd
    exact Numeral.length_ofInt_le hp hport
  · exact absurd hd (Option.not_mem_none d)

end Builder
end HttpUri
