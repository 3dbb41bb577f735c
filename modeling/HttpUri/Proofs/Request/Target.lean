import HttpUri.Charset.Registry
import HttpUri.Proofs.Url.Failure
import HttpUri.Request

/-! The URL composed of a target has the components of the target and no others. -/
namespace HttpUri.Message
variable {m : Message} {u : Url}

theorem rootedPath_builder (m : Message) :
    m.builder.rootedPath = targetPath m.path ∧ ∃ t, targetPath m.path = .char '/' :: t := by
  have hslash : ∃ t, targetPath m.path = .char '/' :: t := by
    cases hp : m.path with
    | none => exact ⟨[], rfl⟩
    | some path =>
      rw [targetPath]
      split
      · next hhead => exact List.head?_eq_some_iff.1 hhead
      · exact ⟨path, rfl⟩
  obtain ⟨t, ht⟩ := hslash
  refine ⟨?_, t, ht⟩
  unfold Builder.rootedPath
  change (if m.builder.host.isSome = true ∧ targetPath m.path ≠ [] ∧
    (targetPath m.path).head? ≠ some (.char '/') then
      .char '/' :: targetPath m.path else targetPath m.path) = _
  rw [ht]
  exact if_neg (by simp)

theorem exists_rootedPath (m : Message) : ∃ t, m.builder.rootedPath = .char '/' :: t := by
  obtain ⟨hrooted, hslash⟩ := m.rootedPath_builder
  exact hrooted ▸ hslash

theorem builder_of_authority {a : Authority} (ha : m.authority = some a) :
    m.builder.scheme = some (m.scheme.getD Host.defaultScheme) ∧
      m.builder.host = some a.hostname ∧
        m.builder.port = if 0 ≤ a.port then a.port else -1 := by
  unfold builder
  rw [ha]
  exact ⟨rfl, rfl, rfl⟩

theorem builder_of_no_authority (ha : m.authority = none) :
    m.builder.scheme = none ∧ m.builder.host = none := by
  unfold builder
  rw [ha]
  exact ⟨rfl, rfl⟩

theorem port_builder_lt (hport : ∀ a ∈ m.authority, a.port < 10 ^ Numeral.digitLimit) :
    m.builder.port < 10 ^ Numeral.digitLimit := by
  have hnone : (-1 : Int) < 10 ^ Numeral.digitLimit := Numeral.lt_limit_of_neg (by decide)
  cases ha : m.authority with
  | none =>
    rw [builder, ha]
    exact hnone
  | some a =>
    rw [(builder_of_authority ha).2.2]
    split
    · exact hport a ha
    · exact hnone

/-- What is encoded of a path: it begins with a slash, and an absent one is a slash alone. -/
inductive Rooted : Option Text → Text → Prop
  | absent : Rooted none ['/']
  | rooted (t : Text) : Rooted (some ('/' :: t)) ('/' :: t)
  | rootless {path : Text} (h : path.head? ≠ some '/') : Rooted (some path) ('/' :: path)

theorem rooted_targetPath (path : Option Text) : Rooted path (targetPath path) := by
  cases path with
  | none => exact .absent
  | some path =>
    rw [targetPath]
    split
    · next hhead =>
      obtain ⟨t, rfl⟩ := List.head?_eq_some_iff.1 hhead
      exact .rooted t
    · next hhead => exact .rootless hhead

theorem Rooted.eq_targetPath {path : Option Text} {given : Text} (h : Rooted path given) :
    given = targetPath path := by
  cases h with
  | absent => rfl
  | rooted t => rfl
  | rootless hhead => exact (if_neg hhead).symm

/-- An encoded path is read as one wherever it is put: it is empty or begins with a slash, or no
authority stands before it and no colon in its first segment. -/
def ReadsAsPath (m : Message) (path : Text) : Prop :=
  path = [] ∨ path.head? = some (.char '/') ∨
    m.authority = none ∧ ∀ x y : Text, path = x ++ .char ':' :: y → .char '/' ∈ x

theorem ReadsAsPath.apart {path : Text} (h : m.ReadsAsPath path) : m.builder.Apart path := by
  rcases h with rfl | hhead | ⟨hnone, hcolon⟩
  · exact ⟨fun _ _ x y heq => by simp at heq, fun _ => .inl rfl⟩
  · exact Builder.apart_of_slash (List.head?_eq_some_iff.1 hhead)
  · refine ⟨fun _ _ x y heq _ => ⟨'/', hcolon x y heq, rfl⟩, fun hsome => ?_⟩
    rw [(builder_of_no_authority hnone).2] at hsome
    exact nomatch hsome

theorem readsAsPath_of_slash [Codecs] {codec : Codec} (hname : Codec.find m.charset = .ok codec)
    (hkeeps : codec.KeepsSlash) {given path : Text} (hgiven : Rooted m.path given)
    (hpath : Builder.encodePath m.charset given = .ok path) : m.ReadsAsPath path := by
  obtain ⟨t, ht⟩ := m.rootedPath_builder.2
  rw [hgiven.eq_targetPath, ht] at hpath
  obtain ⟨e, rfl⟩ := Builder.encodePath_slash hname hkeeps hpath
  exact .inr (.inl rfl)

/-- With a codec at hand and a port that is not too large, a URL is composed or the failure is one
to build it; or else it is the codec's own, or a port of too many digits stands in an encoded path
that is not read as one. -/
theorem compose_cases [Codecs] {codec : Codec} (hname : Codec.find m.charset = .ok codec)
    (hport : ∀ a ∈ m.authority, a.port < 10 ^ Numeral.digitLimit) :
    (∃ u, m.compose = .ok u) ∨ (∃ why, m.compose = .error (.build why)) ∨
      (∃ d, m.compose = .error (.codec d) ∧ ¬ d.IsUnencodable ∧
        ∃ t, codec.encode t = .error d) ∨
      ∃ n given path, m.compose = .error (.tooManyDigits n) ∧ Rooted m.path given ∧
        Builder.encodePath m.charset given = .ok path ∧ ¬ m.ReadsAsPath path := by
  obtain ⟨hrooted, -⟩ := m.rootedPath_builder
  rcases Builder.build_cases (b := m.builder) hname (port_builder_lt hport) with
    hu | hwhy | ⟨d, hd, hno, before, t, after, -, -, -, he⟩ | ⟨n, path, hn, hpath, hno⟩
  · exact .inl hu
  · exact .inr (.inl hwhy)
  · exact .inr (.inr (.inl ⟨d, hd, hno, t, he⟩))
  · refine .inr (.inr (.inr ⟨n, _, path, hn, rooted_targetPath m.path, ?_, fun h => hno h.apart⟩))
    rw [← hrooted]
    exact hpath

theorem detached_builder [Codecs] {cs : Charset} (hcs : Charset.ofName? m.charset = some cs) :
    m.builder.Detached :=
  Builder.detached_of_slash (Codec.find_of_ofName? hcs) cs.keepsSlash m.exists_rootedPath

/-- In a built-in charset, with a port that is not too large, a URL is composed or the failure is
one to build it. -/
theorem compose_eq_error [Codecs] {cs : Charset} (hcs : Charset.ofName? m.charset = some cs)
    (hport : ∀ a ∈ m.authority, a.port < 10 ^ Numeral.digitLimit) {e : Error}
    (h : m.compose = .error e) : ∃ why, e = .build why :=
  Builder.exists_buildError (Codec.find_of_ofName? hcs) cs.blamesCharacters (detached_builder hcs)
    (port_builder_lt hport) h

end HttpUri.Message
