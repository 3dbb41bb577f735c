import HttpUri.Charset.Registry
import HttpUri.Proofs.Url.Failure

/-! All that can come of composing a URL, whatever the codec of the charset. -/
namespace HttpUri.Builder
variable {b : Builder} {charset : Text} {codec : Codec}

theorem build_of_path [Codecs] {p e : Text} (hpath : encodePath charset p = .ok e)
    (hslashes : ∀ t, e ≠ .char '/' :: .char '/' :: t) :
    { empty charset with path := some p }.build = reading e (Url.parse e) := by
  have hin : Ingredients { empty charset with path := some p } e none :=
    ⟨hpath, rfl, nofun, nofun, fun _ => hslashes⟩
  have htext : (composed { empty charset with path := some p } e none).toText = e := by
    simp [composed, Components.toText, empty, location, Components.schemeText,
      Components.authorityText, Components.queryText, Components.fragmentText]
  rw [hin.build_eq, htext]

/-- What looks like a scheme and an authority at the start of an encoded path is one, and the port
in it can be as long as one likes. -/
theorem build_of_long [Codecs] {p n d : Text}
    (hpath : encodePath charset p =
      .ok (n ++ .char ':' :: .char '/' :: .char '/' :: .char ':' :: d))
    (hn : Grammar.isScheme n = true) (hdigits : Numeral.isDigits d = true)
    (hlong : Numeral.digitLimit < d.length) :
    { empty charset with path := some p }.build = .error (.tooManyDigits d.length) := by
  have hslashes : ∀ t, n ++ .char ':' :: .char '/' :: .char '/' :: .char ':' :: d ≠
      .char '/' :: .char '/' :: t := by
    intro t heq
    cases n with
    | nil => exact absurd hn (by decide)
    | cons c n =>
      obtain ⟨rfl, -⟩ := List.cons.inj heq
      simp only [Grammar.isScheme, Bool.and_eq_true] at hn
      exact absurd hn.1 (by decide)
  rw [build_of_path hpath hslashes, Url.parse_of_long_port hn hdigits hlong]
  rfl

theorem isDigits_replicate (n : Nat) :
    Numeral.isDigits (List.replicate n (CodePoint.char '1')) = true :=
  List.all_eq_true.2 fun c hc => by rw [List.eq_of_mem_replicate hc]; rfl

theorem limit_lt_length_replicate :
    Numeral.digitLimit < (List.replicate (Numeral.digitLimit + 1) (CodePoint.char '1')).length := by
  rw [List.length_replicate]
  exact Nat.lt_succ_self _

/-- A port of too many digits can stand in a path, whatever other codecs there are. -/
theorem exists_rootless_tooManyDigits [Codecs] : ∃ b : Builder, b.Rootless ∧
    b.port < 10 ^ Numeral.digitLimit ∧ ∃ n, b.build = .error (.tooManyDigits n) := by
  let d : Text := .replicate (Numeral.digitLimit + 1) (.char '1')
  let p : Text := [.char 'x'] ++ .char ':' :: .char '/' :: .char '/' :: .char ':' :: d
  have hone : ∀ c ∈ List.replicate (Numeral.digitLimit + 1) (CodePoint.char '1'),
      Percent.isAscii c = true ∧ Grammar.isPathChar c = true := fun c hc => by
    rw [List.eq_of_mem_replicate hc]
    exact ⟨rfl, rfl⟩
  have hchars : ∀ c ∈ p, Percent.isAscii c = true ∧ Grammar.isPathChar c = true := by
    simp only [p, List.cons_append, List.nil_append, List.forall_mem_cons]
    exact ⟨⟨rfl, rfl⟩, ⟨rfl, rfl⟩, ⟨rfl, rfl⟩, ⟨rfl, rfl⟩, ⟨rfl, rfl⟩, hone⟩
  have hutf : Charset.ofName? "utf-8".points = some .utf8 := by decide
  have hhas : p.all Charset.utf8.has = true :=
    List.all_eq_true.2 fun c hc => Charset.has_of_isAscii (hchars c hc).1
  have hpath : encodePath "utf-8".points p = .ok p :=
    (encodePath_eq_ok hutf).2 ⟨hhas, pathText_eq_self rfl
      (fun c hc => (hchars c hc).1) (Grammar.isEncoded_of_forall rfl fun c hc => (hchars c hc).2)⟩
  have hbuild := build_of_long hpath rfl (isDigits_replicate _) limit_lt_length_replicate
  exact ⟨_, ⟨rfl, rfl, p, rfl, List.cons_ne_nil _ _, by decide⟩,
    Numeral.lt_limit_of_neg (by decide), _, hbuild⟩

/-- All that composing comes to, with a codec at hand and a port that is not too large. The builder
stays what it is. There is a URL, or a failure to build one; or else the codec refuses a text and
blames no character, or a port of too many digits stands in a path that is not apart. A failure to
build is due to a character when the checks pass and the first text that is refused is refused for
one; to the text that is put together when they pass, everything is encoded, no two slashes are in
the way, and it does not parse; and to nothing else when a check fails or the two slashes are there.
-/
theorem build_outcomes [Codecs] (hname : Codec.find b.charset = .ok codec)
    (hport : b.port < 10 ^ Numeral.digitLimit) :
    b.perform .build = (b.build.map some, b) ∧
    ((∃ u, b.build = .ok u) ∨ (∃ why, b.build = .error (.build why)) ∨
      (∃ d, b.build = .error (.codec d) ∧ ¬ d.IsUnencodable ∧ codec.RefusesFirst b.texts d) ∨
      ∃ n path, b.build = .error (.tooManyDigits n) ∧
        encodePath b.charset b.rootedPath = .ok path ∧ ¬ b.Apart path) ∧
    (codec.KeepsSlash → ¬ b.Rootless →
      ∀ path, encodePath b.charset b.rootedPath = .ok path → b.Apart path) ∧
    (∃ b : Builder, b.Rootless ∧ b.port < 10 ^ Numeral.digitLimit ∧
      ∃ n, b.build = .error (.tooManyDigits n)) ∧
    ((∃ why run, b.build = .error (.build why) ∧
        why.cause? = some (.codec (.unencodable run))) ↔
      b.Checked ∧ ∃ run, codec.RefusesFirst b.texts (.unencodable run)) ∧
    (codec.BlamesCharacters →
      ((∃ run, codec.RefusesFirst b.texts (.unencodable run)) ↔ ¬ b.Encodable codec) ∧
        ∀ d, codec.RefusesFirst b.texts d → d.IsUnencodable) ∧
    ((∃ why cause, b.build = .error (.build why) ∧ why.cause? = some (.url cause)) ↔
      b.Checked ∧ b.Encodable codec ∧ ∃ path query, Ingredients b path query ∧
        ∃ cause, Url.parse (b.composed path query).toText = .error (.url cause)) ∧
    ((∃ why, b.build = .error (.build why) ∧ why.cause? = none) ↔ ¬ b.Checked ∨
      b.Checked ∧ b.Encodable codec ∧ b.host = none ∧
        ∃ path, encodePath b.charset b.rootedPath = .ok path ∧
          [.char '/', .char '/'] <+: path) := by
  refine ⟨b.perform_build, build_cases hname hport, fun hkeeps hno => ?_,
    exists_rootless_tooManyDigits, ?_, fun hblames => ⟨exists_unencodable_iff hblames, ?_⟩, ?_, ?_⟩
  · exact detached_of_not_rootless hname hkeeps hno
  · simp only [build_eq_error_iff hname]
    exact failure_due_to_character
  · rintro d ⟨before, t, after, -, -, -, hd⟩
    exact hblames t d hd
  · simp only [build_eq_error_iff hname]
    exact failure_due_to_text hname
  · simp only [build_eq_error_iff hname]
    exact failure_due_to_nothing hname

/-- A character whose two bytes are slashes: the failure is due to nothing else. -/
theorem build_outcomes_of_slashes :
    let b : Builder := { empty "utf-16-le".points with path := some "⼯".points }
    Codec.find b.charset = .ok Charset.utf16le.codec ∧ b.port < 10 ^ Numeral.digitLimit ∧
      ∃ why, b.build = .error (.build why) ∧ why.cause? = none := by
  intro b
  have hcs : Charset.ofName? b.charset = some .utf16le := by decide
  have hname := Codec.find_of_ofName? hcs
  have hport : b.port < 10 ^ Numeral.digitLimit := Numeral.lt_limit_of_neg (by decide)
  have hencodable : b.Encodable Charset.utf16le.codec := by
    refine List.forall_mem_singleton.2 (Charset.encodes_iff.2 ?_)
    decide
  have hpath : encodePath b.charset b.rootedPath = .ok [.char '/', .char '/'] := by decide +kernel
  exact ⟨hname, hport, (build_outcomes hname hport).2.2.2.2.2.2.2.2
    (.inr ⟨⟨nofun, nofun⟩, hencodable, rfl, _, hpath, List.prefix_rfl⟩)⟩

theorem encode_codePage37 (n : Nat) :
    CodePage37.codec.encode ("/\x9a\x07\x07\x9a".points ++
      List.replicate n (CodePoint.char '\x91')) =
      .ok ([0x61, 0x3A, 0x2F, 0x2F, 0x3A] ++ List.replicate n 0x31) := by
  have hone : CodePage37.encodeChar? '\x91' = some 0x31 := by rfl
  have hhas : ("/\x9a\x07\x07\x9a".points ++ List.replicate n (CodePoint.char '\x91')).all
      (fun c => (CodePage37.encodeChar? c).isSome) = true := by
    refine List.all_eq_true.2 (List.forall_mem_append.2 ⟨List.all_eq_true.1 (by decide), ?_⟩)
    intro c hc
    rw [List.eq_of_mem_replicate hc, hone]
    rfl
  unfold CodePage37.codec
  dsimp only
  rw [Unencodable.first?_eq_none.2 hhas, List.filterMap_append,
    List.filterMap_replicate_of_some hone]
  rfl

/-- A rooted path that is written in EBCDIC as `a://:111…`. -/
theorem encodePath_of_codePage37 (n : Nat) :
    encodePath "cp037".points ("/\x9a\x07\x07\x9a".points ++
      List.replicate n (CodePoint.char '\x91')) =
      .ok ([.char 'a'] ++ .char ':' :: .char '/' :: .char '/' :: .char ':' ::
        List.replicate n (CodePoint.char '1')) := by
  have hnot : .char '%' ∉ "/\x9a\x07\x07\x9a".points ++
      List.replicate n (CodePoint.char '\x91') := by
    rw [List.mem_append, not_or]
    exact ⟨by decide, fun hm => absurd (List.eq_of_mem_replicate hm) (by decide)⟩
  have hones : Percent.encodeBytes isPathSafe (List.replicate n 0x31) =
      List.replicate n (CodePoint.char '1') := by
    rw [Percent.encodeBytes, List.flatMap_replicate]
    exact List.flatten_replicate_singleton
  rw [encodePath, escapeStray_of_not_mem hnot,
    Percent.encode_of_found Codec.find_cp037 (by simp [String.points]), encode_codePage37]
  change Except.ok (Percent.encodeBytes isPathSafe _) = _
  rw [Percent.encodeBytes_append, hones]
  rfl

/-- A codec that blames no character makes the failure its own, and one that writes a slash as
another byte can turn a rooted path into a port of too many digits. -/
theorem not_closed_of_codecs :
    (∃ codec e, Codec.find "undefined".points = .ok codec ∧
      { empty "undefined".points with path := some [.char '/'] }.build = .error (.codec e) ∧
        ¬ e.IsUnencodable) ∧
    ∃ (codec : Codec) (path : Text) (n : Nat), Codec.find "cp037".points = .ok codec ∧
      path.head? = some (.char '/') ∧
      { empty "cp037".points with path := some path }.build = .error (.tooManyDigits n) := by
  constructor
  · refine ⟨NoCodec.codec "undefined".points, NoCodec.failure "encoding".points "undefined".points,
      Codec.find_undefined, by rfl, ?_⟩
    rintro ⟨run, hrun⟩
    exact nomatch hrun
  · exact ⟨CodePage37.codec, _, _, Codec.find_cp037, rfl,
      build_of_long (encodePath_of_codePage37 _) rfl (isDigits_replicate _)
        limit_lt_length_replicate⟩

end HttpUri.Builder
