import HttpUri.Error
import HttpUri.Text.Lower

/-! Header fields in order, looked up by name without regard to letter case. -/
namespace HttpUri

structure Field where
  name : Text
  value : Text
  deriving DecidableEq, Repr

namespace Field

def toText (f : Field) : Text := f.name ++ [.char ':', .char ' '] ++ f.value

def isNamed (f : Field) (key : Text) : Bool := decide (Text.lower f.name = Text.lower key)

def shown (f : Field) : Text :=
  [.char '('] ++ Text.quoted f.name ++ [.char ',', .char ' '] ++ Text.quoted f.value ++ [.char ')']

end Field

/-- Header fields in the order in which they were added. -/
structure Headers where
  fields : List Field
  deriving DecidableEq, Repr

namespace Headers

def empty : Headers := ⟨[]⟩

/-- The fields of names with their values, each name with all of its values in turn. -/
def ofEntries (entries : List (Text × List Text)) : Headers :=
  ⟨entries.flatMap fun e => e.2.map (⟨e.1, ·⟩)⟩

def named (h : Headers) (key : Text) : List Field := h.fields.filter (·.isNamed key)

def getAll (h : Headers) (key : Text) : List Text := (h.named key).map (·.value)

def first? (h : Headers) (key : Text) : Option Field := (h.named key).head?

def last? (h : Headers) (key : Text) : Option Field := (h.named key).getLast?

def contains (h : Headers) (key : Text) : Bool := (h.first? key).isSome

/-- The name whose values are not joined. -/
def setCookie : Text := "set-cookie".points

/-- The value of a name: its values joined by commas, or the first one of a cookie. -/
def get? (h : Headers) (key : Text) : Option Text :=
  match h.getAll key with
  | [] => none
  | value :: values =>
    if Text.lower key = setCookie then some value
    else some (Text.join [.char ',', .char ' '] (value :: values))

def get (h : Headers) (key : Text) : Except Error Text :=
  match h.get? key with
  | some value => .ok value
  | none => .error (.missingKey key)

def holds (h : Headers) (key : Text) : Bool := (h.get key).isOk

def distinct : List Text → List Text
  | [] => []
  | a :: rest => a :: (distinct rest).filter (· ≠ a)

/-- The names in small letters, each where it first occurs. -/
def names (h : Headers) : List Text := distinct (h.fields.map fun f => Text.lower f.name)

def size (h : Headers) : Nat := (h.fields.map fun f => Text.lower f.name).eraseDups.length

def items (h : Headers) : List (Text × Text) := h.names.map fun k => (k, (h.get? k).getD [])

def same (a b : Headers) : Bool :=
  decide (a.names.length = b.names.length) && a.items.all (b.items.contains ·)

def add (h : Headers) (f : Field) : Headers := ⟨h.fields ++ [f]⟩

/-- Puts a field in place of the first one of its name, or after all others if there is none. -/
def setIn (f : Field) : List Field → List Field
  | [] => [f]
  | g :: rest => if g.isNamed f.name then f :: rest else g :: setIn f rest

def set (h : Headers) (f : Field) : Headers := ⟨setIn f h.fields⟩

/-- Removes the fields of a name, and tells whether there were any. -/
def remove (h : Headers) (key : Text) : Bool × Headers :=
  let kept := h.fields.filter fun f => !f.isNamed key
  (decide (kept.length ≠ h.fields.length), ⟨kept⟩)

def shown (h : Headers) : Text :=
  "Headers([".points ++ Text.join [.char ',', .char ' '] (h.fields.map (·.shown)) ++
    [.char ']', .char ')']

inductive Edit
  | add (f : Field)
  | set (f : Field)
  | remove (key : Text)
  | clear

def apply (h : Headers) : Edit → Headers
  | .add f => h.add f
  | .set f => h.set f
  | .remove key => (h.remove key).2
  | .clear => empty

/-- The fields of a name, the first one replaced or a first one added. -/
def replaceFirst (f : Field) : List Field → List Field
  | [] => [f]
  | _ :: rest => f :: rest

theorem named_add (h : Headers) (f : Field) (key : Text) :
    (h.add f).named key = h.named key ++ if f.isNamed key then [f] else [] := by
  simp only [named, add, List.filter_append, List.filter_cons, List.filter_nil]

theorem named_remove_self (h : Headers) (key : Text) : (h.remove key).2.named key = [] := by
  simp [named, remove]

theorem isNamed_congr {f : Field} {key other : Text} (h : Text.lower key = Text.lower other) :
    f.isNamed key = f.isNamed other := by
  simp [Field.isNamed, h]

theorem named_remove_other {h : Headers} {key other : Text}
    (hk : Text.lower key ≠ Text.lower other) : (h.remove key).2.named other = h.named other := by
  simp only [named, remove, List.filter_filter]
  refine List.filter_congr fun f _ => ?_
  by_cases hf : f.isNamed other = true
  · have : f.isNamed key = false := by
      simp only [Field.isNamed, decide_eq_true_eq, decide_eq_false_iff_not] at hf ⊢
      exact fun he => hk (he.symm.trans hf)
    simp [hf, this]
  · simp [hf]

theorem named_set (h : Headers) (f : Field) (key : Text) :
    (h.set f).named key =
      if f.isNamed key then replaceFirst f (h.named key) else h.named key := by
  obtain ⟨fields⟩ := h
  simp only [named, set]
  induction fields with
  | nil => by_cases hf : f.isNamed key = true <;> simp [setIn, replaceFirst, hf]
  | cons g rest ih =>
    by_cases hf : f.isNamed key = true
    · have hk : Text.lower f.name = Text.lower key := by simpa [Field.isNamed] using hf
      have hg : g.isNamed f.name = g.isNamed key := isNamed_congr hk
      by_cases hgk : g.isNamed key = true
      · simp [setIn, hg, hgk, hf, replaceFirst]
      · simp only [hf, if_true] at ih ⊢
        simp [setIn, hg, hgk, ih]
    · simp only [hf, if_false, Bool.false_eq_true] at ih ⊢
      by_cases hg : g.isNamed f.name = true
      · have hgk : g.isNamed key = false := by
          have hk : Text.lower g.name = Text.lower f.name := by simpa [Field.isNamed] using hg
          have hf' : f.isNamed key = false := by simpa using hf
          simpa [Field.isNamed, hk] using hf'
        simp [setIn, hg, hgk, hf]
      · simp [setIn, hg, ih, List.filter_cons]

end Headers
end HttpUri
