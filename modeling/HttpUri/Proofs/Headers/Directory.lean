import HttpUri.Headers
import Mathlib.Logic.Function.Basic

/-! Header fields under edits: a list for each name, and one order for all of them. -/
namespace HttpUri

/-- A list of fields for each name in small letters. -/
abbrev Directory := Text → List Field

namespace Directory

def ofEntries (entries : List (Text × List Text)) : Directory := fun name =>
  (entries.filter fun e => Text.lower e.1 = name).flatMap fun e => e.2.map (⟨e.1, ·⟩)

/-- An edit changes the list of its own name and leaves the others. -/
def edit (d : Directory) : Headers.Edit → Directory
  | .add f => Function.update d (Text.lower f.name) (d (Text.lower f.name) ++ [f])
  | .set f => Function.update d (Text.lower f.name) (f :: (d (Text.lower f.name)).tail)
  | .remove key => Function.update d (Text.lower key) []
  | .clear => fun _ => []

def run (d : Directory) (edits : List Headers.Edit) : Directory := edits.foldl edit d

end Directory

theorem Field.isNamed_iff {f : Field} {key : Text} :
    f.isNamed key = true ↔ Text.lower f.name = Text.lower key := decide_eq_true_iff

namespace Headers
variable {h : Headers} {d : Directory} {i j k l : Nat}

def run (h : Headers) (edits : List Edit) : Headers := edits.foldl apply h

/-- Of each name, the headers hold the fields of its list. -/
def Represents (h : Headers) (d : Directory) : Prop := ∀ key, h.named key = d (Text.lower key)

theorem replaceFirst_eq (f : Field) (fields : List Field) :
    replaceFirst f fields = f :: fields.tail := by
  cases fields <;> rfl

theorem filter_entry (name key : Text) (values : List Text) :
    (values.map (Field.mk name ·)).filter (·.isNamed key) =
      if Text.lower name = Text.lower key then values.map (⟨name, ·⟩) else [] := by
  split
  · next he =>
    refine List.filter_eq_self.2 fun f hf => ?_
    obtain ⟨value, -, rfl⟩ := List.mem_map.1 hf
    exact Field.isNamed_iff.2 he
  · next he =>
    refine List.filter_eq_nil_iff.2 fun f hf => ?_
    obtain ⟨value, -, rfl⟩ := List.mem_map.1 hf
    exact mt Field.isNamed_iff.1 he

theorem represents_ofEntries (entries : List (Text × List Text)) :
    Represents (ofEntries entries) (Directory.ofEntries entries) := by
  intro key
  simp only [named, ofEntries, Directory.ofEntries]
  induction entries with
  | nil => rfl
  | cons e rest ih =>
    rw [List.flatMap_cons, List.filter_append, ih, filter_entry]
    by_cases he : Text.lower e.1 = Text.lower key
    · rw [if_pos he, List.filter_cons_of_pos (by simpa using he), List.flatMap_cons]
    · rw [if_neg he, List.filter_cons_of_neg (by simpa using he), List.nil_append]

/-- An edit of the headers is an edit of the list of its name. -/
theorem Represents.apply (hd : Represents h d) (e : Edit) :
    Represents (h.apply e) (d.edit e) := by
  intro key
  cases e with
  | add f =>
    change (h.add f).named key = Function.update d _ _ (Text.lower key)
    rw [named_add, hd key]
    by_cases hk : Text.lower f.name = Text.lower key
    · rw [if_pos (Field.isNamed_iff.2 hk), hk, Function.update_self]
    · rw [if_neg (mt Field.isNamed_iff.1 hk), List.append_nil, Function.update_of_ne (Ne.symm hk)]
  | set f =>
    change (h.set f).named key = Function.update d _ _ (Text.lower key)
    rw [named_set, hd key]
    by_cases hk : Text.lower f.name = Text.lower key
    · rw [if_pos (Field.isNamed_iff.2 hk), replaceFirst_eq, hk, Function.update_self]
    · rw [if_neg (mt Field.isNamed_iff.1 hk), Function.update_of_ne (Ne.symm hk)]
  | remove other =>
    change (h.remove other).2.named key = Function.update d _ _ (Text.lower key)
    by_cases hk : Text.lower other = Text.lower key
    · have hsame : (h.remove other).2.named key = (h.remove other).2.named other :=
        List.filter_congr fun f _ => isNamed_congr hk.symm
      rw [hsame, named_remove_self, hk, Function.update_self]
    · rw [named_remove_other hk, hd key, Function.update_of_ne (Ne.symm hk)]
  | clear => rfl

theorem Represents.run (hd : Represents h d) (edits : List Edit) :
    Represents (h.run edits) (d.run edits) := by
  induction edits generalizing h d with
  | nil => exact hd
  | cons e rest ih => exact ih (hd.apply e)

theorem contains_iff (h : Headers) (key : Text) : h.contains key = true ↔ h.named key ≠ [] := by
  rw [contains, first?, List.isSome_head?]

theorem remove_fst_iff (h : Headers) (key : Text) :
    (h.remove key).1 = true ↔ h.named key ≠ [] := by
  have hkept : (h.fields.filter fun f => !f.isNamed key).length = h.fields.length ↔
      ∀ f ∈ h.fields, ¬ f.isNamed key = true := by
    rw [List.length_filter_eq_length_iff]
    simp
  rw [remove, decide_eq_true_iff, Ne, hkept, named, Ne, List.filter_eq_nil_iff]

/-- The edit replaces or removes the field at a position. -/
def Edit.touches (fields : List Field) (i : Nat) : Edit → Bool
  | .add _ => false
  | .set f => decide (i = fields.findIdx (·.isNamed f.name))
  | .remove key => (fields[i]?).any (·.isNamed key)
  | .clear => true

/-- Where the field at a position stands after an edit that does not touch it: only fields that are
removed make room. -/
def place? (h : Headers) (e : Edit) (i : Nat) : Option Nat :=
  if e.touches h.fields i then none
  else match e with
    | .remove key => some ((h.fields.take i).countP fun f => !f.isNamed key)
    | _ => some i

/-- Where the field at a position stands after a run of edits that do not touch it. -/
def placeAfter? (h : Headers) : List Edit → Nat → Option Nat
  | [], i => some i
  | e :: rest, i => (h.place? e i).bind ((h.apply e).placeAfter? rest)

theorem set_of_named (f : Field) (hf : h.named f.name ≠ []) :
    (h.set f).fields = h.fields.set (h.fields.findIdx (·.isNamed f.name)) f := by
  obtain ⟨fields⟩ := h
  change setIn f fields = _
  change fields.filter (·.isNamed f.name) ≠ [] at hf
  induction fields with
  | nil => exact absurd rfl hf
  | cons g rest ih =>
    by_cases hg : g.isNamed f.name = true
    · rw [setIn, if_pos hg, List.findIdx_cons, hg]
      rfl
    · have hrest : rest.filter (·.isNamed f.name) ≠ [] := by simpa [hg] using hf
      rw [setIn, if_neg hg, ih hrest, List.findIdx_cons, Bool.eq_false_iff.2 hg]
      rfl

theorem set_of_not_named (f : Field) (hf : h.named f.name = []) :
    (h.set f).fields = h.fields ++ [f] := by
  obtain ⟨fields⟩ := h
  change setIn f fields = _
  change fields.filter (·.isNamed f.name) = [] at hf
  induction fields with
  | nil => rfl
  | cons g rest ih =>
    obtain ⟨hg, hrest⟩ := List.forall_mem_cons.1 (List.filter_eq_nil_iff.1 hf)
    rw [setIn, if_neg hg, ih (List.filter_eq_nil_iff.2 hrest)]
    rfl

/-- An element that stays has in front of it what stays of those in front of it. -/
theorem getElem?_filter_countP {α : Type} {p : α → Bool} {as : List α} {a : α}
    (ha : as[i]? = some a) (hp : p a = true) : (as.filter p)[(as.take i).countP p]? = some a := by
  induction as generalizing i with
  | nil => exact nomatch ha
  | cons b rest ih =>
    cases i with
    | zero =>
      obtain rfl : b = a := Option.some.inj ha
      rw [List.filter_cons_of_pos hp]
      rfl
    | succ i =>
      have hrest := ih (i := i) ha
      rw [List.take_succ_cons]
      by_cases hb : p b = true
      · rw [List.filter_cons_of_pos hb, List.countP_cons_of_pos hb, List.getElem?_cons_succ]
        exact hrest
      · rw [List.filter_cons_of_neg hb, List.countP_cons_of_neg hb]
        exact hrest

theorem countP_take_lt {α : Type} {p : α → Bool} {as : List α} {a : α} (ha : as[i]? = some a)
    (hp : p a = true) (hik : i < k) : (as.take i).countP p < (as.take k).countP p := by
  obtain ⟨hi, rfl⟩ := List.getElem?_eq_some_iff.1 ha
  calc (as.take i).countP p
      < (as.take (i + 1)).countP p := by
        rw [List.take_succ_eq_append_getElem hi, List.countP_append, List.countP_singleton, hp]
        exact Nat.lt_succ_self _
    _ ≤ (as.take k).countP p := (List.take_sublist_take_left hik).countP_le

theorem getElem?_place {e : Edit} (hi : i < h.fields.length) (hj : h.place? e i = some j) :
    (h.apply e).fields[j]? = h.fields[i]? := by
  obtain ⟨htouch, hj⟩ := Option.ite_none_left_eq_some.1 hj
  cases e with
  | add f =>
    obtain rfl : i = j := Option.some.inj hj
    exact List.getElem?_append_left hi
  | set f =>
    obtain rfl : i = j := Option.some.inj hj
    change (h.set f).fields[i]? = _
    by_cases hf : h.named f.name = []
    · rw [set_of_not_named f hf, List.getElem?_append_left hi]
    · have hne : ¬ i = h.fields.findIdx (·.isNamed f.name) := by simpa [Edit.touches] using htouch
      rw [set_of_named f hf, List.getElem?_set_ne (Ne.symm hne)]
  | remove key =>
    obtain rfl := Option.some.inj hj
    have hfield : h.fields[i]? = some h.fields[i] := List.getElem?_eq_getElem hi
    have hkept : (!(h.fields[i]).isNamed key) = true := by
      simpa [Edit.touches, hfield] using htouch
    rw [hfield]
    exact getElem?_filter_countP hfield hkept
  | clear => exact absurd rfl htouch

theorem place_lt_place {e : Edit} (hik : i < k) (hk : k < h.fields.length)
    (hj : h.place? e i = some j) (hl : h.place? e k = some l) : j < l := by
  obtain ⟨htouch, hj⟩ := Option.ite_none_left_eq_some.1 hj
  obtain ⟨-, hl⟩ := Option.ite_none_left_eq_some.1 hl
  cases e with
  | add f =>
    obtain rfl : i = j := Option.some.inj hj
    obtain rfl : k = l := Option.some.inj hl
    exact hik
  | set f =>
    obtain rfl : i = j := Option.some.inj hj
    obtain rfl : k = l := Option.some.inj hl
    exact hik
  | remove key =>
    obtain rfl := Option.some.inj hj
    obtain rfl := Option.some.inj hl
    have hfield : h.fields[i]? = some h.fields[i] :=
      List.getElem?_eq_getElem (Nat.lt_trans hik hk)
    have hkept : (!(h.fields[i]).isNamed key) = true := by
      simpa [Edit.touches, hfield] using htouch
    exact countP_take_lt hfield hkept hik
  | clear => exact absurd rfl htouch

theorem place_lt_length {e : Edit} (hi : i < h.fields.length) (hj : h.place? e i = some j) :
    j < (h.apply e).fields.length := by
  have hfield := getElem?_place hi hj
  rw [List.getElem?_eq_getElem hi] at hfield
  exact (List.getElem?_eq_some_iff.1 hfield).1

theorem getElem?_placeAfter {edits : List Edit} (hi : i < h.fields.length)
    (hj : h.placeAfter? edits i = some j) : (h.run edits).fields[j]? = h.fields[i]? := by
  induction edits generalizing h i with
  | nil =>
    obtain rfl : i = j := Option.some.inj hj
    rfl
  | cons e rest ih =>
    obtain ⟨m, hm, hrest⟩ := Option.bind_eq_some_iff.1 hj
    exact (ih (place_lt_length hi hm) hrest).trans (getElem?_place hi hm)

theorem placeAfter_lt_placeAfter {edits : List Edit} (hik : i < k) (hk : k < h.fields.length)
    (hj : h.placeAfter? edits i = some j) (hl : h.placeAfter? edits k = some l) : j < l := by
  induction edits generalizing h i k with
  | nil =>
    obtain rfl : i = j := Option.some.inj hj
    obtain rfl : k = l := Option.some.inj hl
    exact hik
  | cons e rest ih =>
    obtain ⟨m, hm, hj⟩ := Option.bind_eq_some_iff.1 hj
    obtain ⟨n, hn, hl⟩ := Option.bind_eq_some_iff.1 hl
    exact ih (place_lt_place hik hk hm hn) (place_lt_length hk hn) hj hl

/-- Under any edits, the fields of each name are those of a list of its own, and all that looks a
name up reads this list. In the order of all fields a new one comes last, one that replaces another
takes its position, and those that a further run does not touch keep their order. -/
theorem run_refines (entries : List (Text × List Text)) (edits : List Edit) :
    let h := (ofEntries entries).run edits
    let d := (Directory.ofEntries entries).run edits
    (∀ key, h.named key = d (Text.lower key) ∧
      h.getAll key = (d (Text.lower key)).map (·.value) ∧
      h.first? key = (d (Text.lower key)).head? ∧ h.last? key = (d (Text.lower key)).getLast? ∧
      (h.contains key = true ↔ d (Text.lower key) ≠ []) ∧
      ((h.remove key).1 = true ↔ d (Text.lower key) ≠ [])) ∧
    (∀ f, (h.add f).fields = h.fields ++ [f] ∧
      (d (Text.lower f.name) = [] → (h.set f).fields = h.fields ++ [f]) ∧
      (d (Text.lower f.name) ≠ [] →
        (h.set f).fields = h.fields.set (h.fields.findIdx (·.isNamed f.name)) f)) ∧
    ∀ more i j, i < h.fields.length → h.placeAfter? more i = some j →
      (h.run more).fields[j]? = h.fields[i]? ∧
        ∀ k l, i < k → k < h.fields.length → h.placeAfter? more k = some l → j < l := by
  intro h d
  have hd : Represents h d := (represents_ofEntries entries).run edits
  refine ⟨fun key => ?_, fun f => ?_, ?_⟩
  · rw [← hd key]
    exact ⟨rfl, rfl, rfl, rfl, contains_iff h key, remove_fst_iff h key⟩
  · rw [← hd f.name]
    exact ⟨rfl, set_of_not_named f, set_of_named f⟩
  · intro more i j hi hj
    exact ⟨getElem?_placeAfter hi hj, fun k l hik hk hl => placeAfter_lt_placeAfter hik hk hj hl⟩

end Headers
end HttpUri
