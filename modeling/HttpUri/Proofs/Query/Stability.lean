import HttpUri.Charset.Registry
import HttpUri.Proofs.Percent.Replacement
import HttpUri.Proofs.Query.Surrogates
import HttpUri.Request.Operation

/-! Query strings read, formatted and read again. -/
namespace HttpUri.Query
variable {charset raw piece s t : Text} {cs : Charset} {p : Parameter} {params : List Parameter}

theorem decodeText_ne_nil [Codecs] (hcs : Charset.ofName? charset = some cs)
    (h : decodeText charset s = .ok t) (hs : s ≠ []) : t ≠ [] :=
  Percent.decode_ne_nil hcs h (mt List.map_eq_nil_iff.1 hs)

/-- A piece has a value if it has an equals sign, and has a name otherwise. -/
theorem parsePiece_ne [Codecs] (hcs : Charset.ofName? charset = some cs)
    (h : parsePiece charset piece = .ok p) (hp : piece ≠ []) : p ≠ ⟨[], none⟩ := by
  unfold parsePiece at h
  split at h
  · obtain ⟨value, -, h⟩ := Outcome.bind_eq_ok.1 h
    obtain ⟨name, -, h⟩ := Outcome.bind_eq_ok.1 h
    obtain rfl : ⟨name, some value⟩ = p := Except.ok.inj h
    nofun
  · obtain ⟨name, hname, h⟩ := Outcome.bind_eq_ok.1 h
    obtain rfl : ⟨name, none⟩ = p := Except.ok.inj h
    exact fun heq => decodeText_ne_nil hcs hname hp (congrArg Parameter.name heq)

/-- Each parameter that is read has a name or a value. -/
theorem not_mem_parse [Codecs] (hcs : Charset.ofName? charset = some cs)
    (h : parse raw charset = .ok params) : ⟨[], none⟩ ∉ params := by
  intro hm
  obtain ⟨piece, hpiece, hp⟩ := Outcome.exists_of_mem_mapM h hm
  have hne : piece ≠ [] := of_decide_eq_true (List.mem_filter.1 hpiece).2
  exact parsePiece_ne hcs hp hne rfl

theorem perform_setQueryString_of_parse [Codecs] {r : Request}
    (h : parse raw r.charset = .ok params) :
    r.perform (.setQueryString (some raw)) =
      (.ok .done, { r with parameters := some params, cache := r.cache.invalidate }) := by
  rw [Request.perform_setQueryString, h]

theorem perform_queryString [Codecs] {r : Request} (hr : r.parameters = some params) :
    (r.perform (.read .queryString)).1 =
      ((format params r.charset).map fun q => Request.Answer.text (some q)).mapError .codec := by
  rw [Request.perform_read, Request.read, Message.queryString, hr]
  dsimp only
  cases format params r.charset <;> rfl

theorem setQueryString_queryString [Codecs] {r : Request} (hr : r.parameters = some params)
    (hback : ∀ q, format params r.charset = .ok q → parse q r.charset = .ok params)
    {q : Option Text} (hq : (r.perform (.read .queryString)).1 = .ok (.text q)) :
    ∃ r', r.perform (.setQueryString q) = (.ok .done, r') ∧ r'.parameters = r.parameters := by
  rw [perform_queryString hr] at hq
  cases hown : format params r.charset with
  | error e =>
    rw [hown] at hq
    exact absurd hq nofun
  | ok own =>
    rw [hown] at hq
    obtain rfl : some own = q := Request.Answer.text.inj (Except.ok.inj hq)
    exact ⟨_, perform_setQueryString_of_parse (hback own hown), hr.symm⟩

/-- Whatever a query string holds, its parameters have a name or a value each, and come back from
the query string that they are formatted as. In UTF-8 there is one unless a surrogate is in the
text, and a character is to blame if there is none. A request that is assigned its own query string
keeps its parameters. -/
theorem parse_stable [Codecs] (hcs : Charset.ofName? charset = some cs)
    (ha : cs.extendsAscii = true)
    (raw : Text) :
    ∃ params, parse raw charset = .ok params ∧ ⟨[], none⟩ ∉ params ∧
      (cs = .utf8 → ((∃ q, format params charset = .ok q) ↔ raw.isScalar = true)) ∧
      (∀ e, format params charset = .error e → e.IsUnencodable) ∧
      (∀ q, format params charset = .ok q → parse q charset = .ok params) ∧
      ∀ r : Request, r.charset = charset → ∃ r₁,
        r.perform (.setQueryString (some raw)) = (.ok .done, r₁) ∧ r₁.parameters = some params ∧
        (cs = .utf8 → ((∃ q, (r₁.perform (.read .queryString)).1 = .ok (.text (some q))) ↔
          raw.isScalar = true)) ∧
        ∀ q, (r₁.perform (.read .queryString)).1 = .ok (.text q) → ∃ r₂,
          r₁.perform (.setQueryString q) = (.ok .done, r₂) ∧ r₂.parameters = r₁.parameters := by
  have hname := Codec.find_of_ofName? hcs
  obtain ⟨params, hparse⟩ := exists_parse hname cs.readsAll raw
  have hne : ⟨[], none⟩ ∉ params := not_mem_parse hcs hparse
  have hback : ∀ q, format params charset = .ok q → parse q charset = .ok params :=
    fun q hq => parse_of_format hcs ha hne hq
  have hutf8 : cs = .utf8 → ((∃ q, format params charset = .ok q) ↔ raw.isScalar = true) := by
    rintro rfl
    exact exists_format_of_parse_iff hcs Charset.has_utf8 hparse
  refine ⟨params, hparse, hne, hutf8,
    fun e he => isUnencodable_of_format hname cs.blamesCharacters he,
    hback, ?_⟩
  rintro r rfl
  let r₁ : Request := { r with parameters := some params, cache := r.cache.invalidate }
  have hset : r.perform (.setQueryString (some raw)) = (.ok .done, r₁) :=
    perform_setQueryString_of_parse hparse
  have hread := perform_queryString (r := r₁) rfl
  refine ⟨r₁, hset, rfl, fun hcs => ?_, fun q hq => ?_⟩
  · rw [← hutf8 hcs, hread]
    cases format params r.charset with
    | ok q => exact iff_of_true ⟨q, rfl⟩ ⟨q, rfl⟩
    | error e => simp [Except.map, Except.mapError]
  · exact setQueryString_queryString (r := r₁) rfl hback hq

/-- Cut-off and impossible bytes beside letters, stray escapes and separators, and an empty name. -/
theorem parse_stable_of_malformed :
    let raw := "%FF%e2%82é&&=&+%zz=%&%C3%A9=a=b&%ed%A0%80".points
    let params : List Parameter := [⟨"\ufffd\ufffdé".points, none⟩, ⟨[], some []⟩,
      ⟨" %zz".points, some [.char '%']⟩, ⟨[.char 'é'], some "a=b".points⟩,
        ⟨"\ufffd\ufffd\ufffd".points, none⟩]
    let q := "%EF%BF%BD%EF%BF%BD%C3%A9&=&+%25zz=%25&%C3%A9=a%3Db&%EF%BF%BD%EF%BF%BD%EF%BF%BD".points
    Charset.ofName? defaultCharset = some .utf8 ∧ parse raw defaultCharset = .ok params ∧
      format params defaultCharset = .ok q ∧ parse q defaultCharset = .ok params ∧
        ∃ r₁ r₂, (Request.bare "GET".points defaultCharset).perform (.setQueryString (some raw)) =
            (.ok .done, r₁) ∧ (r₁.perform (.read .queryString)).1 = .ok (.text (some q)) ∧
          r₁.perform (.setQueryString (some q)) = (.ok .done, r₂) ∧
          r₂.parameters = some params := by
  intro raw params q
  have hcs : Charset.ofName? defaultCharset = some .utf8 := rfl
  have hparams : parse raw defaultCharset = .ok params := by rfl
  have hq : format params defaultCharset = .ok q := by rfl
  obtain ⟨own, hparse, -, -, -, hback, hrequest⟩ := parse_stable hcs rfl raw
  obtain rfl : params = own := Except.ok.inj (hparams.symm.trans hparse)
  obtain ⟨r₁, hset, hown, -, hagain⟩ := hrequest (Request.bare "GET".points defaultCharset) rfl
  have hcharset : r₁.charset = defaultCharset :=
    congrArg (·.2.charset) (hset.symm.trans (perform_setQueryString_of_parse hparams))
  have hread : (r₁.perform (.read .queryString)).1 = .ok (.text (some q)) := by
    rw [perform_queryString hown, hcharset, hq]
    rfl
  obtain ⟨r₂, hset₂, hkept⟩ := hagain (some q) hread
  exact ⟨hcs, hparams, hq, hback q hq, r₁, r₂, hset, hread, hset₂, hkept.trans hown⟩

/-- A surrogate is read, and not written. -/
theorem not_format_parse_of_surrogate :
    let raw : Text := [.surrogate 0]
    ∃ params, parse raw defaultCharset = .ok params ∧
      ∃ run, format params defaultCharset = .error (.unencodable run) ∧ run.char = .surrogate 0 :=
  ⟨_, rfl, _, rfl, rfl⟩

end HttpUri.Query
