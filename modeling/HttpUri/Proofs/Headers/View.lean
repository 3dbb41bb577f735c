import HttpUri.Proofs.Headers.Directory
import HttpUri.Proofs.Text.Lower
import Mathlib.Data.List.Perm.Subperm
import Mathlib.Data.List.TFAE

/-! Header fields as a map from names to values. -/
namespace HttpUri.Headers
variable {h a b : Headers} {key other : Text}

/-! Names in the order in which they first occur. -/

theorem mem_distinct {name : Text} {l : List Text} : name ∈ distinct l ↔ name ∈ l := by
  induction l with
  | nil => rfl
  | cons n rest ih =>
    rw [distinct, List.mem_cons, List.mem_filter, ih, List.mem_cons]
    by_cases hn : name = n <;> simp [hn]

theorem pairwise_distinct (l : List Text) :
    (distinct l).Pairwise fun m n => l.idxOf m < l.idxOf n := by
  induction l with
  | nil => exact .nil
  | cons n rest ih =>
    have hshift : ∀ m ∈ (distinct rest).filter (· ≠ n),
        (n :: rest).idxOf m = rest.idxOf m + 1 := fun m hm =>
      List.idxOf_cons_ne rest fun heq => by simp [heq] at hm
    refine List.pairwise_cons.2 ⟨fun m hm => ?_, ?_⟩
    · rw [List.idxOf_cons_self, hshift m hm]
      exact Nat.succ_pos _
    · refine (ih.filter _).imp_of_mem fun hm hm' hlt => ?_
      rw [hshift _ hm, hshift _ hm']
      exact Nat.succ_lt_succ hlt

theorem distinct_filter (p : Text → Bool) (l : List Text) :
    distinct (l.filter p) = (distinct l).filter p := by
  induction l with
  | nil => rfl
  | cons n rest ih =>
    by_cases hn : p n = true
    · rw [List.filter_cons_of_pos hn, distinct, distinct, ih, List.filter_cons_of_pos hn,
        List.filter_comm]
    · have hother : ∀ m ∈ distinct rest, (p m && decide (m ≠ n)) = p m := by
        intro m _
        by_cases hm : m = n
        · rw [hm, Bool.eq_false_iff.2 hn, Bool.false_and]
        · rw [decide_eq_true hm, Bool.and_true]
      rw [List.filter_cons_of_neg hn, distinct, ih, List.filter_cons_of_neg hn, List.filter_filter]
      exact (List.filter_congr hother).symm

theorem distinct_eq_eraseDups (l : List Text) : distinct l = l.eraseDups := by
  induction hn : l.length using Nat.strongRecOn generalizing l with
  | ind n ih =>
    cases l with
    | nil => rfl
    | cons m rest =>
      have hshort : (rest.filter (· ≠ m)).length < n := by
        rw [← hn, List.length_cons]
        exact Nat.lt_succ_of_le (List.length_filter_le _ _)
      have hsame : (rest.filter fun k => !k == m) = rest.filter (· ≠ m) :=
        List.filter_congr fun k _ => by by_cases hk : k = m <;> simp [hk]
      rw [distinct, ← distinct_filter, ih _ hshort _ rfl, List.eraseDups_cons, hsame]

theorem mem_names {name : Text} : name ∈ h.names ↔ ∃ f ∈ h.fields, Text.lower f.name = name :=
  mem_distinct.trans List.mem_map

theorem nodup_names (h : Headers) : h.names.Nodup := by
  refine List.Pairwise.imp ?_ (pairwise_distinct _)
  rintro m n hlt rfl
  exact Nat.lt_irrefl _ hlt

/-! What a name has. -/

theorem named_congr (hk : Text.lower key = Text.lower other) : h.named key = h.named other :=
  List.filter_congr fun _ _ => isNamed_congr hk

theorem getAll_ne_nil : h.getAll key ≠ [] ↔ h.named key ≠ [] :=
  not_congr List.map_eq_nil_iff

theorem get?_eq (h : Headers) (key : Text) : h.get? key =
    if h.getAll key = [] then none
    else if Text.lower key = setCookie then (h.getAll key).head?
    else some (Text.join [.char ',', .char ' '] (h.getAll key)) := by
  rw [get?]
  cases h.getAll key with
  | nil => rfl
  | cons value values => rw [if_neg (List.cons_ne_nil _ _)]; rfl

theorem get?_congr (hk : Text.lower key = Text.lower other)
    (hab : a.named key = b.named other) : a.get? key = b.get? other := by
  rw [get?_eq, get?_eq, getAll, hab, hk]
  rfl

theorem get?_ne_none : h.get? key ≠ none ↔ h.named key ≠ [] := by
  rw [← getAll_ne_nil, get?_eq]
  cases h.getAll key with
  | nil => simp
  | cons value values => by_cases hc : Text.lower key = setCookie <;> simp [hc]

theorem lower_mem_names : Text.lower key ∈ h.names ↔ h.named key ≠ [] := by
  rw [mem_names, named, Ne, List.filter_eq_nil_iff]
  simp only [Field.isNamed_iff, not_forall, not_not, exists_prop]

theorem lower_of_mem_names (hk : key ∈ h.names) : Text.lower key = key := by
  obtain ⟨f, -, rfl⟩ := mem_names.1 hk
  exact Text.lower_lower f.name

theorem named_ne_nil_of_mem_names (hk : key ∈ h.names) : h.named key ≠ [] := by
  refine lower_mem_names.1 ?_
  rwa [lower_of_mem_names hk]

theorem get_eq_ok {value : Text} : h.get key = .ok value ↔ h.get? key = some value := by
  rw [get]
  cases h.get? key <;> simp

theorem get_eq_error {e : Error} :
    h.get key = .error e ↔ h.get? key = none ∧ e = .missingKey key := by
  rw [get]
  cases h.get? key <;> simp [eq_comm]

theorem holds_iff : h.holds key = true ↔ h.get? key ≠ none := by
  rw [holds, get]
  cases h.get? key <;> simp [Except.isOk, Except.toBool]

theorem item_mem (hk : key ∈ h.names) : (key, (h.get? key).getD []) ∈ h.items :=
  List.mem_map.2 ⟨key, hk, rfl⟩

theorem mem_items {value : Text} :
    (key, value) ∈ h.items ↔ key ∈ h.names ∧ h.get? key = some value := by
  have hvalue : ∀ n ∈ h.names, h.get? n = some ((h.get? n).getD []) := fun n hn => by
    have hsome : h.get? n ≠ none := get?_ne_none.2 (named_ne_nil_of_mem_names hn)
    obtain ⟨v, hv⟩ := Option.ne_none_iff_exists'.1 hsome
    rw [hv]
    rfl
  rw [items, List.mem_map]
  constructor
  · rintro ⟨n, hn, heq⟩
    obtain ⟨rfl, rfl⟩ := Prod.mk.inj heq
    exact ⟨hn, hvalue _ hn⟩
  · rintro ⟨hn, hv⟩
    refine ⟨key, hn, ?_⟩
    rw [hv]
    rfl

/-! Equality. -/

theorem get?_eq_some {value : Text} :
    h.get? key = some value ↔ (Text.lower key, value) ∈ h.items := by
  have hlower : h.get? (Text.lower key) = h.get? key :=
    get?_congr (Text.lower_lower key) (named_congr (Text.lower_lower key))
  rw [mem_items, hlower]
  refine ⟨fun hv => ⟨lower_mem_names.2 (get?_ne_none.1 ?_), hv⟩, And.right⟩
  rw [hv]
  nofun

theorem names_subset (hab : ∀ key, a.get? key = b.get? key) : a.names ⊆ b.names := fun n hn => by
  have hsome : a.get? n ≠ none := get?_ne_none.2 (named_ne_nil_of_mem_names hn)
  have hother : Text.lower n ∈ b.names := lower_mem_names.2 (get?_ne_none.1 (hab n ▸ hsome))
  rwa [lower_of_mem_names hn] at hother

theorem items_subset_of_get? (hab : ∀ key, a.get? key = b.get? key) : a.items ⊆ b.items := by
  rintro ⟨n, value⟩ hn
  obtain ⟨hname, hvalue⟩ := mem_items.1 hn
  exact mem_items.2 ⟨names_subset hab hname, hab n ▸ hvalue⟩

/-- Headers with as many names, each with its value in the others, have nothing that the others
lack. -/
theorem items_subset_of_same (hlength : a.names.length = b.names.length)
    (hitems : a.items ⊆ b.items) :
    b.items ⊆ a.items := by
  have hnames : a.names ⊆ b.names := fun n hn => (mem_items.1 (hitems (item_mem hn))).1
  have hperm : a.names.Perm b.names :=
    (List.Nodup.subperm (nodup_names a) hnames).perm_of_length_le (Nat.le_of_eq hlength.symm)
  rintro ⟨n, value⟩ hn
  obtain ⟨hname, hvalue⟩ := mem_items.1 hn
  have hown : (n, (a.get? n).getD []) ∈ a.items := item_mem (hperm.mem_iff.2 hname)
  obtain ⟨-, hget⟩ := mem_items.1 (hitems hown)
  obtain rfl : (a.get? n).getD [] = value := Option.some.inj (hget.symm.trans hvalue)
  exact hown

/-- Equality compares the listed names, and so all names. -/
theorem same_iff : a.same b = true ↔ ∀ key, a.get? key = b.get? key := by
  have hunfold : a.same b = true ↔ a.names.length = b.names.length ∧ a.items ⊆ b.items := by
    rw [same, Bool.and_eq_true, decide_eq_true_iff, List.all_eq_true]
    simp only [List.contains_iff_mem]
    rfl
  rw [hunfold]
  constructor
  · rintro ⟨hlength, hitems⟩ key
    refine Option.ext fun value => ?_
    rw [get?_eq_some, get?_eq_some]
    exact ⟨fun hv => hitems hv, fun hv => items_subset_of_same hlength hitems hv⟩
  · intro hab
    have hperm : a.names.Perm b.names :=
      (List.perm_ext_iff_of_nodup (nodup_names a) (nodup_names b)).2 fun n =>
        ⟨fun hn => names_subset hab hn, fun hn => names_subset (fun key => (hab key).symm) hn⟩
    exact ⟨hperm.length_eq, items_subset_of_get? hab⟩

/-- The headers read as a map: every way to ask for the presence of a name, for its value or for
equality gives the same answer. -/
structure Coherent (h : Headers) : Prop where
  nodup : h.names.Nodup
  names : ∀ name, name ∈ h.names ↔ ∃ f ∈ h.fields, Text.lower f.name = name
  order : h.names.Pairwise fun m n => (h.fields.map fun f => Text.lower f.name).idxOf m <
    (h.fields.map fun f => Text.lower f.name).idxOf n
  size : h.size = h.names.length
  present : ∀ key, [h.holds key = true, h.contains key = true, h.getAll key ≠ [],
    h.get key ≠ .error (.missingKey key), Text.lower key ∈ h.names].TFAE
  value : ∀ key value, h.get key = .ok value ↔ h.get? key = some value
  joined : ∀ key, h.get? key = if h.getAll key = [] then none
    else if Text.lower key = setCookie then (h.getAll key).head?
    else some (Text.join [.char ',', .char ' '] (h.getAll key))
  caseless : ∀ key other, Text.lower key = Text.lower other → h.named key = h.named other ∧
    h.getAll key = h.getAll other ∧ h.first? key = h.first? other ∧ h.last? key = h.last? other ∧
    h.get? key = h.get? other ∧ h.contains key = h.contains other ∧ h.holds key = h.holds other
  equal : ∀ other, h.same other = true ↔ ∀ key, h.get? key = other.get? key
  reordered : ∀ moved : Headers, (∀ key, moved.named key = h.named key) → ∀ other,
    moved.same other = h.same other ∧ other.same moved = other.same h

theorem present_iff (h : Headers) (key : Text) : [h.holds key = true, h.contains key = true,
    h.getAll key ≠ [], h.get key ≠ .error (.missingKey key), Text.lower key ∈ h.names].TFAE := by
  have hfails : h.get key ≠ .error (.missingKey key) ↔ h.named key ≠ [] := by
    rw [Ne, get_eq_error, and_iff_left rfl]
    exact get?_ne_none
  refine List.tfae_of_forall (h.named key ≠ []) _ ?_
  simp only [List.forall_mem_cons, List.not_mem_nil, false_implies, implies_true, and_true]
  exact ⟨holds_iff.trans get?_ne_none, contains_iff h key, getAll_ne_nil, hfails, lower_mem_names⟩

/-- All headers read as a map, whatever was done to them. -/
theorem view_coherent (h : Headers) : Coherent h where
  nodup := nodup_names h
  names _ := mem_names
  order := pairwise_distinct _
  size := congrArg List.length (distinct_eq_eraseDups _).symm
  present := present_iff h
  value _ _ := get_eq_ok
  joined := get?_eq h
  caseless key other hk := by
    have hnamed : h.named key = h.named other := named_congr hk
    have hget : h.get? key = h.get? other := get?_congr hk hnamed
    have hholds : h.holds key = h.holds other := by
      rw [Bool.eq_iff_iff, holds_iff, holds_iff, hget]
    rw [hholds, hget, contains, first?, last?, getAll, hnamed]
    exact ⟨rfl, rfl, rfl, rfl, rfl, rfl, rfl⟩
  equal _ := same_iff
  reordered moved hmoved other := by
    have hget : ∀ key, moved.get? key = h.get? key := fun key => get?_congr rfl (hmoved key)
    constructor <;> rw [Bool.eq_iff_iff, same_iff, same_iff] <;> simp only [hget]

end HttpUri.Headers
