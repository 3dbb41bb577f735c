import HttpUri.Text.CodePoint

/-! Texts as lists of code points, cut at a separator. -/
namespace HttpUri

/-- A text is the list of its code points. -/
abbrev Text := List CodePoint

end HttpUri

/-- The text of the characters of a string. -/
def String.points (s : String) : HttpUri.Text := s.toList.map .char

namespace HttpUri.Text

def isScalar (s : Text) : Bool := s.all (!·.isSurrogate)

/-- The parts before and after the first occurrence of a character. -/
def cutFirst (c : CodePoint) : Text → Option (Text × Text)
  | [] => none
  | d :: rest =>
    if d = c then some ([], rest) else (cutFirst c rest).map fun p => (d :: p.1, p.2)

def cutLast (c : CodePoint) : Text → Option (Text × Text)
  | [] => none
  | d :: rest =>
    match cutLast c rest with
    | some (before, after) => some (d :: before, after)
    | none => if d = c then some ([], rest) else none

/-- What follows a leading mark. -/
def after? : (mark s : Text) → Option Text
  | [], s => some s
  | _ :: _, [] => none
  | m :: mark, d :: rest => if m = d then after? mark rest else none

/-- The parts before and after the first occurrence of a nonempty mark. -/
def cutAt (mark : Text) : Text → Option (Text × Text)
  | [] => none
  | d :: rest =>
    match after? mark (d :: rest) with
    | some tail => some ([], tail)
    | none => (cutAt mark rest).map fun p => (d :: p.1, p.2)

def join (sep : Text) (parts : List Text) : Text := sep.intercalate parts

/-- An optional text as part of a larger one: an absent one reads `None`. -/
def orNone : Option Text → Text
  | some s => s
  | none => "None".points

@[simp] theorem isScalar_cons (c : CodePoint) (s : Text) :
    isScalar (c :: s) = (!c.isSurrogate && isScalar s) := List.all_cons

@[simp] theorem isScalar_append (s t : Text) :
    isScalar (s ++ t) = (isScalar s && isScalar t) := List.all_append

theorem isScalar_iff {s : Text} : s.isScalar = true ↔ ∀ c ∈ s, c.isSurrogate = false := by
  simp [isScalar]

/-- A text without surrogates is one of characters. -/
theorem exists_map_char {s : Text} (h : s.isScalar = true) :
    ∃ t : List Char, s = t.map .char := by
  induction s with
  | nil => exact ⟨[], rfl⟩
  | cons c rest ih =>
    obtain ⟨hc, hrest⟩ := Bool.and_eq_true_iff.1 h
    obtain ⟨t, rfl⟩ := ih hrest
    cases c with
    | char c => exact ⟨c :: t, rfl⟩
    | surrogate i => exact absurd hc Bool.false_ne_true

@[simp] theorem cutFirst_eq_none {c : CodePoint} {s : Text} : cutFirst c s = none ↔ c ∉ s := by
  induction s with
  | nil => simp [cutFirst]
  | cons d rest ih =>
    by_cases h : d = c
    · simp [cutFirst, h]
    · simp [cutFirst, h, ih, Ne.symm h]

@[simp] theorem cutFirst_eq_some {c : CodePoint} {s a b : Text} :
    cutFirst c s = some (a, b) ↔ s = a ++ c :: b ∧ c ∉ a := by
  induction s generalizing a with
  | nil => simp [cutFirst]
  | cons d rest ih =>
    by_cases h : d = c
    · subst h
      cases a with
      | nil => simp [cutFirst]
      | cons e a => simp +contextual [cutFirst, eq_comm]
    · cases a with
      | nil => simp [cutFirst, h]
      | cons e a =>
        simp only [cutFirst, h, if_false, Option.map_eq_some_iff, Prod.mk.injEq, List.cons.injEq,
          Prod.exists, List.cons_append, List.mem_cons, not_or]
        constructor
        · intro hm
          obtain ⟨x, y, hc, ⟨rfl, rfl⟩, rfl⟩ := hm
          obtain ⟨hs, hx⟩ := ih.1 hc
          exact ⟨⟨rfl, hs⟩, Ne.symm h, hx⟩
        · intro hm
          obtain ⟨⟨rfl, hs⟩, -, hx⟩ := hm
          exact ⟨a, b, ih.2 ⟨hs, hx⟩, ⟨rfl, rfl⟩, rfl⟩

@[simp] theorem cutLast_eq_none {c : CodePoint} {s : Text} : cutLast c s = none ↔ c ∉ s := by
  induction s with
  | nil => simp [cutLast]
  | cons d rest ih => grind [cutLast]

@[simp] theorem cutLast_eq_some {c : CodePoint} {s a b : Text} :
    cutLast c s = some (a, b) ↔ s = a ++ c :: b ∧ c ∉ b := by
  induction s generalizing a with
  | nil => simp [cutLast]
  | cons d rest ih =>
    have hn := @cutLast_eq_none c rest
    cases a with
    | nil => grind [cutLast]
    | cons e a => grind [cutLast]

@[simp] theorem after?_eq_some {mark s tail : Text} : after? mark s = some tail ↔
    s = mark ++ tail := by
  induction mark generalizing s with
  | nil => simp [after?, eq_comm]
  | cons m mark ih =>
    cases s with
    | nil => simp [after?]
    | cons d rest => by_cases h : m = d <;> simp [after?, h, ih, eq_comm]

end HttpUri.Text
