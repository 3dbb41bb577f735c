import HttpUri.Proofs.Percent.Encoded
import HttpUri.Proofs.Query.Refusal

/-! What query strings stand for, told without their decoder. -/
namespace HttpUri

/-- The hexadecimal digit of a value, of either case. -/
def Text.IsHexDigit (c : CodePoint) (x : Nat) : Prop :=
  "0123456789abcdef".points[x]? = some c ∨ "0123456789ABCDEF".points[x]? = some c

theorem Text.hexValue?_eq_some {c : CodePoint} {x : Nat} :
    hexValue? c = some x ↔ IsHexDigit c x := by
  constructor
  · intro h
    have hdigit : ∀ n < 0x80, ∀ y ∈ hexValue? (CodePoint.ofNat n),
        "0123456789abcdef".points[y]? = some (CodePoint.ofNat n) ∨
          "0123456789ABCDEF".points[y]? = some (CodePoint.ofNat n) := by
      decide
    have hc : Percent.isAscii c = true := isAscii_of_isHex (by rw [isHex, h]; rfl)
    exact forall_ascii (P := fun c => ∀ y ∈ hexValue? c, IsHexDigit c y) hdigit hc x h
  · intro h
    have hsmall : ∀ y < 16, "0123456789abcdef".points[y]?.bind hexValue? = some y := by decide
    have hcapital : ∀ y < 16, "0123456789ABCDEF".points[y]?.bind hexValue? = some y := by decide
    rcases h with h | h
    · have hvalue := hsmall x (List.getElem?_eq_some_iff.1 h).1
      rwa [h] at hvalue
    · have hvalue := hcapital x (List.getElem?_eq_some_iff.1 h).1
      rwa [h] at hvalue

namespace Percent
variable {codec : Codec} {s t run rest : Text} {bytes : List UInt8}

/-- The bytes of an ASCII text: of a percent sign with two digits, the one they number; of any other
character, its own. -/
inductive Octets : Text → List UInt8 → Prop
  | nil : Octets [] []
  | triplet {high low : CodePoint} {x y : Nat} {rest : Text} {bytes : List UInt8}
    (hx : Text.IsHexDigit high x) (hy : Text.IsHexDigit low y) (hrest : Octets rest bytes) :
    Octets (.char '%' :: high :: low :: rest) (UInt8.ofNat (16 * x + y) :: bytes)
  | single {c : CodePoint} {rest : Text} {bytes : List UInt8}
    (hc : ∀ high low tail x y, c :: rest = .char '%' :: high :: low :: tail →
      Text.IsHexDigit high x → ¬ Text.IsHexDigit low y) (hrest : Octets rest bytes) :
    Octets (c :: rest) (UInt8.ofNat c.toNat :: bytes)

theorem byte?_eq_some {high low : CodePoint} {b : UInt8} : byte? high low = some b ↔
    ∃ x y, Text.IsHexDigit high x ∧ Text.IsHexDigit low y ∧ UInt8.ofNat (16 * x + y) = b := by
  simp only [byte?, ← Text.hexValue?_eq_some]
  split
  · next x y hx hy => simp [hx, hy]
  · next hno =>
    refine iff_of_false (fun h => Option.some_ne_none b h.symm) ?_
    rintro ⟨x, y, hx, hy, -⟩
    exact hno x y hx hy

theorem octets_iff : Octets s bytes ↔ decodeBytes s = bytes := by
  constructor
  · intro h
    induction h with
    | nil => rfl
    | triplet hx hy _ ih => rw [decodeBytes_of_byte (byte?_eq_some.2 ⟨_, _, hx, hy, rfl⟩), ih]
    | @single c rest bytes hc _ ih =>
      rw [← ih]
      by_cases hpercent : c = '%'
      · subst hpercent
        refine decodeBytes_of_stray fun high low tail hrest => ?_
        refine Option.eq_none_iff_forall_ne_some.2 fun b hb => ?_
        obtain ⟨x, y, hx, hy, -⟩ := byte?_eq_some.1 hb
        exact hc high low tail x y (by rw [hrest]) hx hy
      · exact decodeBytes_cons_of_ne hpercent rest
  · rintro rfl
    fun_induction decodeBytes s with
    | case1 => exact .nil
    | case2 high low tail b hb ih =>
      obtain ⟨x, y, hx, hy, rfl⟩ := byte?_eq_some.1 hb
      exact .triplet hx hy ih
    | case3 high low tail hb ih =>
      refine .single ?_ ih
      intro h l rest x y heq hx hy
      obtain ⟨rfl, rfl, rfl⟩ : high = h ∧ low = l ∧ tail = rest := by simpa using heq
      exact nomatch hb.symm.trans (byte?_eq_some.2 ⟨x, y, hx, hy, rfl⟩)
    | case4 c rest hno ih =>
      refine .single ?_ ih
      intro high low tail x y heq hx hy
      obtain ⟨rfl, rfl⟩ := List.cons.inj heq
      exact hno high low tail rfl rfl

/-- What comes of a text: a character that is not ASCII is copied, and of each longest run of ASCII
characters the codec reads the bytes, or fails. -/
inductive Decodes (codec : Codec) : Text → Except CodecError Text → Prop
  | nil : Decodes codec [] (.ok [])
  | copied {c : CodePoint} {rest : Text} {outcome : Except CodecError Text} (hc : isAscii c = false)
    (hrest : Decodes codec rest outcome) : Decodes codec (c :: rest) (outcome.map (c :: ·))
  | read {run rest t : Text} {bytes : List UInt8} {outcome : Except CodecError Text}
    (hne : run ≠ []) (hrun : run.all isAscii = true) (hend : ∀ c ∈ rest.head?, isAscii c = false)
    (hbytes : Octets run bytes) (ht : codec.decode bytes = .ok t)
    (hrest : Decodes codec rest outcome) : Decodes codec (run ++ rest) (outcome.map (t ++ ·))
  | refused {run rest : Text} {bytes : List UInt8} {e : CodecError} (hne : run ≠ [])
    (hrun : run.all isAscii = true) (hend : ∀ c ∈ rest.head?, isAscii c = false)
    (hbytes : Octets run bytes) (he : codec.decode bytes = .error e) :
    Decodes codec (run ++ rest) (.error e)

theorem decodeAfter_cons_of_copied {c : CodePoint} (hc : isAscii c = false) (rest : Text) :
    decodeAfter codec [] (c :: rest) = (decodeAfter codec [] rest).map (c :: ·) := by
  rw [decodeAfter, hc]
  cases decodeAfter codec [] rest <;> rfl

/-- Where a run of ASCII characters ends, it is read, and then the rest. -/
theorem decodeAfter_of_end (hend : ∀ c ∈ rest.head?, isAscii c = false) :
    decodeAfter codec run rest = (do
      let read ← decodeRun codec run.reverse
      let tail ← decodeAfter codec [] rest
      return read ++ tail) := by
  cases rest with
  | nil =>
    rw [decodeAfter]
    cases decodeRun codec run.reverse with
    | error e => rfl
    | ok read => exact congrArg Except.ok (List.append_nil read).symm
  | cons c rest =>
    have hc : isAscii c = false := hend c rfl
    rw [decodeAfter_cons_of_copied hc, decodeAfter, hc]
    cases decodeRun codec run.reverse with
    | error e => rfl
    | ok read => cases decodeAfter codec [] rest <;> rfl

theorem decodeAfter_append (hrun : run.all isAscii = true) (before rest : Text) :
    decodeAfter codec before (run ++ rest) = decodeAfter codec (run.reverse ++ before) rest := by
  induction run generalizing before with
  | nil => rfl
  | cons c run ih =>
    obtain ⟨hc, hrun⟩ := Bool.and_eq_true_iff.1 hrun
    rw [List.cons_append, decodeAfter, if_pos hc, ih hrun, List.reverse_cons, List.append_assoc,
      List.singleton_append]

theorem decodeAfter_run (hne : run ≠ []) (hrun : run.all isAscii = true)
    (hend : ∀ c ∈ rest.head?, isAscii c = false) : decodeAfter codec [] (run ++ rest) = (do
      let read ← codec.decode (decodeBytes run)
      let tail ← decodeAfter codec [] rest
      return read ++ tail) := by
  rw [decodeAfter_append hrun, decodeAfter_of_end hend, List.append_nil, List.reverse_reverse,
    decodeRun, if_neg hne]

theorem decodes_decodeAfter (codec : Codec) (s : Text) :
    Decodes codec s (decodeAfter codec [] s) := by
  induction hn : s.length using Nat.strongRecOn generalizing s with
  | ind n ih =>
    match s with
    | [] => exact .nil
    | c :: rest =>
      cases hc : isAscii c with
      | false =>
        rw [decodeAfter_cons_of_copied hc]
        exact .copied hc (ih _ (by simp [← hn]) rest rfl)
      | true =>
        -- The run goes on for as long as the characters are ASCII.
        have hsplit : c :: rest = (c :: rest.takeWhile isAscii) ++ rest.dropWhile isAscii := by
          rw [List.cons_append, List.takeWhile_append_dropWhile]
        have hrun : (c :: rest.takeWhile isAscii).all isAscii = true := by
          rw [List.all_cons, hc, List.all_takeWhile, Bool.and_self]
        have hend : ∀ d ∈ (rest.dropWhile isAscii).head?, isAscii d = false := by
          intro d hd
          have hdrop := List.head?_dropWhile_not isAscii rest
          rw [hd] at hdrop
          exact hdrop
        have hlen : (rest.dropWhile isAscii).length < n := by
          have hle := (List.dropWhile_suffix isAscii : rest.dropWhile isAscii <:+ rest).length_le
          rw [← hn, List.length_cons]
          omega
        have hne := List.cons_ne_nil c (rest.takeWhile isAscii)
        rw [hsplit, decodeAfter_run hne hrun hend]
        cases hread : codec.decode (decodeBytes (c :: rest.takeWhile isAscii)) with
        | error e => exact .refused hne hrun hend (octets_iff.2 rfl) hread
        | ok t =>
          have htail := Decodes.read hne hrun hend (octets_iff.2 rfl) hread (ih _ hlen _ rfl)
          revert htail
          cases decodeAfter codec [] (rest.dropWhile isAscii) <;> exact id

theorem Decodes.eq {outcome : Except CodecError Text} (h : Decodes codec s outcome) :
    decodeAfter codec [] s = outcome := by
  induction h with
  | nil => rfl
  | copied hc _ ih => rw [decodeAfter_cons_of_copied hc, ih]
  | @read _ _ _ _ outcome hne hrun hend hbytes ht _ ih =>
    rw [decodeAfter_run hne hrun hend, octets_iff.1 hbytes, ht, ih]
    cases outcome <;> rfl
  | refused hne hrun hend hbytes he =>
    rw [decodeAfter_run hne hrun hend, octets_iff.1 hbytes, he]
    rfl

end Percent

namespace Query
variable {charset s raw piece : Text}

/-- What comes of a name or a value, plus signs read as spaces: itself if it holds no percent sign,
and else what is decoded with the codec of the charset, if there is one. -/
inductive ReadsText [Codecs] (charset : Text) : Text → Except CodecError Text → Prop
  | plain {s : Text} (hs : .char '%' ∉ s) :
    ReadsText charset s (.ok (s.map fun c : CodePoint => if c = '+' then .char ' ' else c))
  | unfound {s : Text} {d : CodecError} (hs : .char '%' ∈ s)
      (hname : Codec.find charset = .error d) :
    ReadsText charset s (.error d)
  | decoded {s : Text} {codec : Codec} {outcome : Except CodecError Text} (hs : .char '%' ∈ s)
    (hname : Codec.find charset = .ok codec)
    (h : Percent.Decodes codec
      (s.map fun c : CodePoint => if c = '+' then .char ' ' else c) outcome) :
    ReadsText charset s outcome

/-- What comes of a piece, whose first equals sign is between the name and the value. If neither can
be read, the failure is that of the value. -/
inductive ReadsPiece [Codecs] (charset : Text) : Text → Except CodecError Parameter → Prop
  | bare {s : Text} {name : Except CodecError Text} (hs : .char '=' ∉ s)
    (hname : ReadsText charset s name) : ReadsPiece charset s (name.map (⟨·, none⟩))
  | valued {s t value : Text} {name : Except CodecError Text} (hs : .char '=' ∉ s)
    (hvalue : ReadsText charset t (.ok value)) (hname : ReadsText charset s name) :
    ReadsPiece charset (s ++ .char '=' :: t) (name.map (⟨·, some value⟩))
  | unvalued {s t : Text} {e : CodecError} (hs : .char '=' ∉ s)
      (he : ReadsText charset t (.error e)) :
    ReadsPiece charset (s ++ .char '=' :: t) (.error e)

/-- What comes of a query string: a parameter for each piece between ampersands that is not empty,
or the failure of the first piece that fails. -/
inductive Reads [Codecs] (charset : Text) : Text → Except CodecError (List Parameter) → Prop
  | nil : Reads charset [] (.ok [])
  | last {piece : Text} {p : Parameter} (hne : piece ≠ []) (hend : .char '&' ∉ piece)
    (hp : ReadsPiece charset piece (.ok p)) : Reads charset piece (.ok [p])
  | gap {rest : Text} {outcome : Except CodecError (List Parameter)}
    (hrest : Reads charset rest outcome) : Reads charset (.char '&' :: rest) outcome
  | cons {piece rest : Text} {p : Parameter} {outcome : Except CodecError (List Parameter)}
    (hne : piece ≠ []) (hend : .char '&' ∉ piece) (hp : ReadsPiece charset piece (.ok p))
    (hrest : Reads charset rest outcome) :
    Reads charset (piece ++ .char '&' :: rest) (outcome.map (p :: ·))
  | lastRefused {piece : Text} {e : CodecError} (hne : piece ≠ []) (hend : .char '&' ∉ piece)
    (he : ReadsPiece charset piece (.error e)) : Reads charset piece (.error e)
  | refused {piece rest : Text} {e : CodecError} (hne : piece ≠ []) (hend : .char '&' ∉ piece)
    (he : ReadsPiece charset piece (.error e)) :
    Reads charset (piece ++ .char '&' :: rest) (.error e)

theorem readsText_decodeText [Codecs] (charset s : Text) :
    ReadsText charset s (decodeText charset s) := by
  unfold decodeText Percent.decode
  split
  · next hs => exact .plain (percent_mem_map.not.1 hs)
  · next hs =>
    rw [not_not, percent_mem_map] at hs
    cases hname : Codec.find charset with
    | error d => exact .unfound hs hname
    | ok codec => exact .decoded hs hname (Percent.decodes_decodeAfter codec _)

theorem ReadsText.eq [Codecs] {outcome : Except CodecError Text}
    (h : ReadsText charset s outcome) : decodeText charset s = outcome := by
  cases h with
  | plain hs => exact if_pos (percent_mem_map.not.2 hs)
  | unfound hs hname =>
    refine (if_neg (not_not.2 (percent_mem_map.2 hs))).trans ?_
    rw [hname]
    rfl
  | decoded hs hname h =>
    refine (if_neg (not_not.2 (percent_mem_map.2 hs))).trans ?_
    rw [hname, ← h.eq]
    rfl

theorem readsPiece_parsePiece [Codecs] (charset piece : Text) :
    ReadsPiece charset piece (parsePiece charset piece) := by
  unfold parsePiece
  split
  · next s t hcut =>
    obtain ⟨rfl, hs⟩ := Text.cutFirst_eq_some.1 hcut
    have hvalue := readsText_decodeText charset t
    cases hv : decodeText charset t with
    | error e => exact .unvalued hs (hv ▸ hvalue)
    | ok value =>
      have hpiece := ReadsPiece.valued hs (hv ▸ hvalue) (readsText_decodeText charset s)
      revert hpiece
      cases decodeText charset s <;> exact id
  · next hcut =>
    have hpiece := ReadsPiece.bare (Text.cutFirst_eq_none.1 hcut)
      (readsText_decodeText charset piece)
    revert hpiece
    cases decodeText charset piece <;> exact id

theorem ReadsPiece.eq [Codecs] {outcome : Except CodecError Parameter}
    (h : ReadsPiece charset piece outcome) : parsePiece charset piece = outcome := by
  cases h with
  | @bare _ name hs hname =>
    rw [parsePiece, Text.cutFirst_eq_none.2 hs]
    dsimp only
    rw [hname.eq]
    cases name <;> rfl
  | @valued _ _ _ name hs hvalue hname =>
    rw [parsePiece, Text.cutFirst_eq_some.2 ⟨rfl, hs⟩]
    dsimp only
    rw [hvalue.eq, hname.eq]
    cases name <;> rfl
  | unvalued hs he =>
    rw [parsePiece, Text.cutFirst_eq_some.2 ⟨rfl, hs⟩]
    dsimp only
    rw [he.eq]
    rfl

@[simp] theorem parse_gap [Codecs] (rest charset : Text) :
    parse (.char '&' :: rest) charset = parse rest charset := by
  have hsplit : (.char '&' :: rest).splitOn (.char '&') = [] :: rest.splitOn (.char '&') :=
    List.splitOn_append_cons_self_of_not_mem List.not_mem_nil rest
  rw [parse, hsplit]
  rfl

theorem parse_append [Codecs] (hne : piece ≠ []) (hend : .char '&' ∉ piece) (rest charset : Text) :
    parse (piece ++ .char '&' :: rest) charset = (do
      let p ← parsePiece charset piece
      let params ← parse rest charset
      return p :: params) := by
  simp [parse, List.splitOn_append_cons_self_of_not_mem hend, hne]

theorem parse_last [Codecs] (hne : piece ≠ []) (hend : .char '&' ∉ piece) (charset : Text) :
    parse piece charset = (do return [← parsePiece charset piece]) := by
  simp [parse, List.splitOn_eq_singleton hend, hne]

theorem reads_parse [Codecs] (raw charset : Text) : Reads charset raw (parse raw charset) := by
  induction hn : raw.length using Nat.strongRecOn generalizing raw with
  | ind n ih =>
    cases hcut : Text.cutFirst '&' raw with
    | none =>
      have hend := Text.cutFirst_eq_none.1 hcut
      by_cases hne : raw = []
      · subst hne
        exact .nil
      · rw [parse_last hne hend]
        have hpiece := readsPiece_parsePiece charset raw
        cases hp : parsePiece charset raw with
        | error e => exact .lastRefused hne hend (hp ▸ hpiece)
        | ok p => exact .last hne hend (hp ▸ hpiece)
    | some cut =>
      obtain ⟨piece, rest⟩ := cut
      obtain ⟨rfl, hend⟩ := Text.cutFirst_eq_some.1 hcut
      have hrest : Reads charset rest (parse rest charset) := by
        refine ih _ ?_ rest rfl
        rw [← hn, List.length_append, List.length_cons]
        omega
      by_cases hne : piece = []
      · subst hne
        rw [List.nil_append, parse_gap]
        exact .gap hrest
      · rw [parse_append hne hend]
        have hpiece := readsPiece_parsePiece charset piece
        cases hp : parsePiece charset piece with
        | error e => exact .refused hne hend (hp ▸ hpiece)
        | ok p =>
          have hall := Reads.cons hne hend (hp ▸ hpiece) hrest
          revert hall
          cases parse rest charset <;> exact id

theorem Reads.eq [Codecs] {outcome : Except CodecError (List Parameter)}
    (h : Reads charset raw outcome) : parse raw charset = outcome := by
  induction h with
  | nil => rfl
  | last hne hend hp => rw [parse_last hne hend, hp.eq]; rfl
  | gap _ ih => rw [parse_gap, ih]
  | @cons _ _ _ outcome hne hend hp _ ih =>
    rw [parse_append hne hend, hp.eq, ih]
    cases outcome <;> rfl
  | lastRefused hne hend he => rw [parse_last hne hend, he.eq]; rfl
  | refused hne hend he => rw [parse_append hne hend, he.eq]; rfl

/-- Parsing a query string has the one outcome that it is to have. -/
theorem parse_eq_iff [Codecs] {outcome : Except CodecError (List Parameter)} :
    parse raw charset = outcome ↔ Reads charset raw outcome :=
  ⟨fun h => h ▸ reads_parse raw charset, Reads.eq⟩

end Query
end HttpUri
