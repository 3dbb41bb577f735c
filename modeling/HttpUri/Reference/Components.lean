import HttpUri.Text.Basic

/-! The five components of a URI reference, as its delimiters divide it. -/
namespace HttpUri

/-- The components of a reference. Only the path is always there. -/
structure Components where
  scheme : Option Text
  authority : Option Text
  path : Text
  query : Option Text
  fragment : Option Text
  deriving DecidableEq, Repr

namespace Components

def endsScheme (c : CodePoint) : Bool := c = ':' || c = '/' || c = '?' || c = '#'

def endsAuthority (c : CodePoint) : Bool := c = '/' || c = '?' || c = '#'

def endsPath (c : CodePoint) : Bool := c = '?' || c = '#'

/-- The scheme is whatever stands before a colon that no other delimiter precedes, if anything does.
The rest follows the colon. -/
def takeScheme (s : Text) : Option Text × Text :=
  match s.takeWhile (!endsScheme ·), s.dropWhile (!endsScheme ·) with
  | c :: name, ':' :: rest => (some (c :: name), rest)
  | _, _ => (none, s)

def takeAuthority : Text → Option Text × Text
  | '/' :: '/' :: rest =>
    (some (rest.takeWhile (!endsAuthority ·)), rest.dropWhile (!endsAuthority ·))
  | s => (none, s)

def takeQuery : Text → Option Text × Text
  | '?' :: rest => (some (rest.takeWhile (· ≠ '#')), rest.dropWhile (· ≠ '#'))
  | s => (none, s)

def takeFragment : Text → Option Text
  | '#' :: rest => some rest
  | _ => none

/-- The components of any text, each one as long as it can be. -/
def ofText (s : Text) : Components :=
  let (scheme, s) := takeScheme s
  let (authority, s) := takeAuthority s
  let path := s.takeWhile (!endsPath ·)
  let (query, s) := takeQuery (s.dropWhile (!endsPath ·))
  ⟨scheme, authority, path, query, takeFragment s⟩

def schemeText : Option Text → Text
  | some scheme => scheme ++ [.char ':']
  | none => []

def authorityText : Option Text → Text
  | some authority => .char '/' :: .char '/' :: authority
  | none => []

def queryText : Option Text → Text
  | some query => .char '?' :: query
  | none => []

def fragmentText : Option Text → Text
  | some fragment => .char '#' :: fragment
  | none => []

/-- The text that the components make up. -/
def toText (c : Components) : Text :=
  schemeText c.scheme ++ authorityText c.authority ++ c.path ++ queryText c.query ++
    fragmentText c.fragment

@[simp] theorem schemeText_takeScheme (s : Text) :
    schemeText (takeScheme s).1 ++ (takeScheme s).2 = s := by
  unfold takeScheme
  split
  · next c name rest hname hrest =>
    rw [← List.takeWhile_append_dropWhile (p := (!endsScheme ·)) (l := s), hname, hrest]
    simp [schemeText]
  · rfl

@[simp] theorem authorityText_takeAuthority (s : Text) :
    authorityText (takeAuthority s).1 ++ (takeAuthority s).2 = s := by
  unfold takeAuthority
  split
  · simp [authorityText, List.takeWhile_append_dropWhile]
  · rfl

@[simp] theorem queryText_takeQuery (s : Text) :
    queryText (takeQuery s).1 ++ (takeQuery s).2 = s := by
  unfold takeQuery
  split
  · simp only [queryText, List.cons_append, List.takeWhile_append_dropWhile]
  · rfl

theorem fragmentText_takeFragment {s : Text} (h : s = [] ∨ s.head? = some (.char '#')) :
    fragmentText (takeFragment s) = s := by
  cases s with
  | nil => rfl
  | cons c rest =>
    have heq : c = '#' := by simpa using h
    subst heq
    rfl

theorem dropWhile_eq_nil_or {p : CodePoint → Bool} (s : Text) :
    s.dropWhile p = [] ∨ ∃ c rest, s.dropWhile p = c :: rest ∧ p c = false := by
  induction s with
  | nil => exact Or.inl rfl
  | cons c rest ih =>
    cases h : p c with
    | true => simpa [h] using ih
    | false => exact Or.inr ⟨c, rest, by simp [h], h⟩

theorem takeQuery_rest {s : Text} (h : s = [] ∨ ∃ c rest, s = c :: rest ∧ endsPath c = true) :
    (takeQuery s).2 = [] ∨ (takeQuery s).2.head? = some (.char '#') := by
  unfold takeQuery
  split
  · next rest =>
    rcases dropWhile_eq_nil_or (p := (· ≠ '#')) rest with hd | ⟨c, tail, hd, hc⟩
    · exact Or.inl hd
    · refine Or.inr ?_
      rw [hd, List.head?_cons]
      simpa using hc
  · next s hs =>
    rcases h with rfl | ⟨c, rest, rfl, hc⟩
    · exact Or.inl rfl
    · have hq : c ≠ '?' := fun h => hs rest (by rw [h])
      exact Or.inr (by simpa [endsPath, hq] using hc)

/-- Dividing a text loses nothing. -/
@[simp] theorem toText_ofText (s : Text) : toText (ofText s) = s := by
  have hpath : ∀ t : Text, t.dropWhile (!endsPath ·) = [] ∨
      ∃ c rest, t.dropWhile (!endsPath ·) = c :: rest ∧ endsPath c = true := fun t => by
    simpa using dropWhile_eq_nil_or (p := (!endsPath ·)) t
  simp only [toText, ofText]
  rw [List.append_assoc, fragmentText_takeFragment (takeQuery_rest (hpath _)), queryText_takeQuery,
    List.append_assoc, List.takeWhile_append_dropWhile, List.append_assoc,
    authorityText_takeAuthority, schemeText_takeScheme]

end Components
end HttpUri
