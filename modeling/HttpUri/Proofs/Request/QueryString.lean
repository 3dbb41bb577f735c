import HttpUri.Charset.Registry
import HttpUri.Proofs.Query.Decoding
import HttpUri.Proofs.Query.Encodable
import HttpUri.Request.Operation

/-! When query strings cannot be read or formatted, and what is left of a request by the attempt. -/
namespace HttpUri

namespace Query
variable {charset : Text} {cs : Charset} {params : List Parameter} {e : CodecError}

theorem format_eq_error_iff [Codecs] : format params charset = .error e ↔
    match Codec.find charset with
    | .ok codec => codec.RefusesFirst (params.flatMap Parameter.texts) e
    | .error d => (∃ t ∈ params.flatMap Parameter.texts, t ≠ []) ∧ e = d := by
  split
  · next hname => exact format_eq_error_of_found hname
  · next hname => exact format_eq_error_of_unfound hname

/-- In a built-in charset, the first character that it does not have is to blame. -/
theorem format_eq_error_of_ofName? [Codecs] (hcs : Charset.ofName? charset = some cs) :
    format params charset = .error e ↔
      ∃ before t after run, params.flatMap Parameter.texts = before ++ t :: after ∧
        (∀ s ∈ before, s.all cs.has = true) ∧ cs.Refuses t run ∧ e = .unencodable run := by
  rw [format_eq_error]
  simp only [exists_encodeText_iff (Codec.find_of_ofName? hcs), Charset.encodes_iff,
    Charset.rejects_of_ofName? hcs]
  constructor
  · intro h
    obtain ⟨before, t, after, hsplit, hbefore, run, hrun, he⟩ := h
    exact ⟨before, t, after, run, hsplit, hbefore, hrun, he⟩
  · intro h
    obtain ⟨before, t, after, run, hsplit, hbefore, hrun, he⟩ := h
    exact ⟨before, t, after, hsplit, hbefore, run, hrun, he⟩

end Query

namespace Request
open Query

theorem perform_setQueryString_of_ok [Codecs] {r : Request} {raw : Text} {params : List Parameter}
    (h : Reads r.charset raw (.ok params)) : r.perform (.setQueryString (some raw)) =
      (.ok .done, { r with parameters := some params, cache := .empty }) := by
  rw [perform_setQueryString, h.eq]
  rfl

theorem perform_setQueryString_of_error [Codecs] {r : Request} {raw : Text} {e : CodecError}
    (h : Reads r.charset raw (.error e)) :
    r.perform (.setQueryString (some raw)) = (.error (.codec e), r) := by
  rw [perform_setQueryString, h.eq]

/-- A query string has the one outcome that it is to have. For want of a codec it fails if it holds
a percent sign, and with a codec that reads all bytes it never fails. Parameters cannot be formatted
for want of a codec, if they hold any text, or else for the first of their texts that the codec
refuses. An assigned query string is read into the parameters, or nothing is changed. -/
theorem queryString_errors [Codecs] :
    (∀ raw charset outcome, parse raw charset = outcome ↔ Reads charset raw outcome) ∧
    (∀ raw charset d, Codec.find charset = .error d →
      ∀ e, parse raw charset = .error e ↔ .char '%' ∈ raw ∧ e = d) ∧
    (∀ raw charset codec, Codec.find charset = .ok codec → codec.ReadsAll →
      ∃ params, parse raw charset = .ok params) ∧
    (∀ params charset e, format params charset = .error e ↔
      match Codec.find charset with
      | .ok codec => codec.RefusesFirst (params.flatMap Parameter.texts) e
      | .error d => (∃ t ∈ params.flatMap Parameter.texts, t ≠ []) ∧ e = d) ∧
    (∀ params charset cs, Charset.ofName? charset = some cs →
      ∀ e, format params charset = .error e ↔
        ∃ before t after run, params.flatMap Parameter.texts = before ++ t :: after ∧
          (∀ s ∈ before, s.all cs.has = true) ∧ cs.Refuses t run ∧ e = .unencodable run) ∧
    ∀ r : Request,
      r.perform (.setQueryString none) =
        (.ok .done, { r with parameters := none, cache := .empty }) ∧
      (∀ raw params, Reads r.charset raw (.ok params) → r.perform (.setQueryString (some raw)) =
        (.ok .done, { r with parameters := some params, cache := .empty })) ∧
      ∀ raw e, Reads r.charset raw (.error e) →
        r.perform (.setQueryString (some raw)) = (.error (.codec e), r) :=
  ⟨fun _ _ _ => parse_eq_iff, fun _ _ _ hname _ => parse_eq_error hname,
    fun raw _ _ hname hreads => exists_parse hname hreads raw, fun _ _ _ => format_eq_error_iff,
    fun _ _ _ hcs _ => format_eq_error_of_ofName? hcs,
    fun _ => ⟨rfl, fun _ _ => perform_setQueryString_of_ok, fun _ _ =>
      perform_setQueryString_of_error⟩⟩

/-- An unknown charset, one that reads the query string, and one that does not have a character. -/
theorem queryString_errors_of_charsets :
    parse "a=%41".points "none".points = .error (.unknownCharset "none".points) ∧
    Reads "utf-8".points "a+b&c=%C3%A9".points
      (.ok [⟨"a b".points, none⟩, ⟨[.char 'c'], some [.char 'é']⟩]) ∧
    format [⟨[.char 'a'], some "xé".points⟩] "ascii".points = .error (.unencodable
      ⟨"ascii".points, "ordinal not in range(128)".points, 'é', 1, 1⟩) := by
  obtain ⟨hreads, hunknown, -, -, hformat, -⟩ := queryString_errors
  refine ⟨(hunknown _ _ _ (by rfl) _).2 ⟨by decide, rfl⟩, (hreads _ _ _).1 (by decide +kernel),
    (hformat _ _ .ascii (by rfl) _).2 ?_⟩
  exact ⟨[[.char 'a']], "xé".points, [], _, rfl, by decide,
    ⟨[.char 'x'], .char 'é', [], rfl, rfl, rfl, rfl⟩, rfl⟩

/-- A codec that neither reads nor writes fails where a charset is known and no character is to
blame. -/
theorem parse_refused_of_codec : ∃ codec d e, Codec.find "undefined".points = .ok codec ∧
    parse "%41".points "undefined".points = .error d ∧
      format [⟨[.char 'a'], none⟩] "undefined".points = .error e ∧ ¬ e.IsUnencodable := by
  refine ⟨NoCodec.codec "undefined".points, NoCodec.failure "decoding".points "undefined".points,
    NoCodec.failure "encoding".points "undefined".points, Codec.find_undefined, by rfl,
    by rfl, ?_⟩
  rintro ⟨run, hrun⟩
  exact nomatch hrun

end Request
end HttpUri
