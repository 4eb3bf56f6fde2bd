import Mathlib.Algebra.Order.BigOperators.Group.List
import Mathlib.Order.Bounds.Basic
import OpenAddressing.Proofs.Table.Layout

/-!
# The histogram of displacements has no gaps

A tally adds one to one bucket, and adds empty buckets before it as far as they are missing
(`getD_tally`, `size_tally`, `sum_tally`). So the histogram of a table counts each displacement
(`Table.getD_histogram`), reaches up to the largest and no further (`Table.lt_size_histogram_iff`),
and counts every entry once (`Table.WellFormed.sum_histogram`).

In a table that comes about a run starts somewhere, at a depth of at most one, and the depth rises
by at most one from a slot to the next. On the way from there to an entry it therefore takes every
value up to that of the entry (`Table.WellFormed.mem_displacements_of_le`), so that no bucket is
empty. As each counts one entry at least, there are no more buckets than entries. `Gapless` states
all this, and `gapless_of_reachable` that it holds of every table that comes about.
-/

namespace OpenAddressing

universe u

/-! ## Tallies -/

/-- A tally adds the buckets that are missing up to its own. -/
theorem size_tally (counts : Array ℕ) (value : ℕ) :
    (tally counts value).size = max counts.size (value + 1) := by
  rw [tally, Array.size_modify, Array.size_append, Array.size_replicate]
  omega

/-- There is a bucket for the value tallied before it is counted there. -/
theorem lt_size_extended (counts : Array ℕ) (value : ℕ) :
    value < (counts ++ Array.replicate (value + 1 - counts.size) 0).size := by
  rw [Array.size_append, Array.size_replicate]
  omega

/-- A tally adds one to the bucket of its value and nothing to the others. -/
theorem getD_tally (counts : Array ℕ) (value d : ℕ) :
    (tally counts value).getD d 0 = counts.getD d 0 + if value = d then 1 else 0 := by
  have hextended : (counts ++ Array.replicate (value + 1 - counts.size) 0).getD d 0
      = counts.getD d 0 := by
    simp only [Array.getD_eq_getD_getElem?, Array.getElem?_append, Array.getElem?_replicate]
    split_ifs <;> simp_all
  have hlt := lt_size_extended counts value
  rw [tally, ← hextended]
  generalize counts ++ Array.replicate (value + 1 - counts.size) 0 = extended at hlt
  simp only [Array.getD_eq_getD_getElem?, Array.getElem?_modify]
  split
  · rename_i h
    subst h
    simp [hlt]
  · rfl

/-- Counting one more in some bucket adds one to the total. -/
theorem sum_modify_succ {l : List ℕ} {i : ℕ} (h : i < l.length) :
    (l.modify i (· + 1)).sum = l.sum + 1 := by
  induction l generalizing i with
  | nil => cases h
  | cons n l ih =>
    cases i with
    | zero =>
      rw [List.modify_zero_cons, List.sum_cons, List.sum_cons]
      omega
    | succ i =>
      rw [List.modify_succ_cons, List.sum_cons, List.sum_cons, ih (Nat.lt_of_succ_lt_succ h)]
      omega

/-- A tally adds one to the total. -/
theorem sum_tally (counts : Array ℕ) (value : ℕ) :
    (tally counts value).sum = counts.sum + 1 := by
  have hlt := lt_size_extended counts value
  rw [← Array.length_toList] at hlt
  rw [tally, ← Array.sum_toList, Array.toList_modify, sum_modify_succ hlt, Array.sum_toList,
    Array.sum_append_nat, Array.sum_replicate_nat, Nat.mul_zero, Nat.add_zero]

/-- Values tallied one after another are counted each in its bucket. -/
theorem getD_foldl_tally (values : List ℕ) (counts : Array ℕ) (d : ℕ) :
    (values.foldl tally counts).getD d 0 = counts.getD d 0 + values.count d := by
  induction values generalizing counts with
  | nil => rfl
  | cons value values ih =>
    rw [List.foldl_cons, ih, getD_tally, List.count_cons]
    simp only [beq_iff_eq]
    omega

/-- There are buckets up to the largest of the values. -/
theorem lt_size_foldl_tally_iff (values : List ℕ) (counts : Array ℕ) (d : ℕ) :
    d < (values.foldl tally counts).size ↔ d < counts.size ∨ ∃ value ∈ values, d ≤ value := by
  induction values generalizing counts with
  | nil => simp
  | cons value values ih =>
    rw [List.foldl_cons, ih, size_tally, List.exists_mem_cons_iff, ← or_assoc]
    exact or_congr_left (by omega)

/-- Each value adds one to the total. -/
theorem sum_foldl_tally (values : List ℕ) (counts : Array ℕ) :
    (values.foldl tally counts).sum = counts.sum + values.length := by
  induction values generalizing counts with
  | nil => rfl
  | cons value values ih =>
    rw [List.foldl_cons, ih, sum_tally, List.length_cons]
    omega

namespace Table

variable {α : Type u} {t : Table α}

/-! ## The histogram of a table -/

/-- How many entries sit `d` slots past their home bucket. -/
def displacedBy (t : Table α) (d : ℕ) : ℕ :=
  (List.range t.capacity).countP fun i =>
    (t.slots.get i).any fun slot => displacement slot.hash i t.capacity == d

/-- A displacement occurs once for each entry that has it. -/
theorem count_displacements (t : Table α) (d : ℕ) : t.displacements.count d = t.displacedBy d := by
  rw [displacements_eq, List.count, List.countP_filterMap, displacedBy]
  refine List.countP_congr fun i _ => ?_
  cases t.slots.get i <;> simp

/-- The displacements are those of the entries at the slots of one round. -/
theorem mem_displacements {d : ℕ} : d ∈ t.displacements ↔
    ∃ i < t.capacity, ∃ slot, t.slots.get i = some slot ∧
      displacement slot.hash i t.capacity = d := by
  rw [displacements_eq, List.mem_filterMap]
  simp only [List.mem_range, Option.map_eq_some_iff]

/-- An entry at a slot of whatever round has one of the displacements. -/
theorem mem_displacements_of_get (hc : 0 < t.capacity) {i : ℕ} {slot : Slot α}
    (h : t.slots.get i = some slot) : displacement slot.hash i t.capacity ∈ t.displacements :=
  mem_displacements.2 ⟨i % t.capacity, Nat.mod_lt _ hc, slot, (Slots.get_mod t.slots i).trans h,
    displacement_mod _ _ hc⟩

/-- There are as many displacements as entries. -/
theorem WellFormed.length_displacements (hw : t.WellFormed) : t.displacements.length = t.size := by
  rw [displacements_eq, List.length_filterMap_eq_countP, hw.size_eq, entries,
    Slots.entries_eq_stretch, Slots.stretch, List.length_filterMap_eq_countP, List.range_eq_range']
  exact List.countP_congr fun i _ => by rw [Option.isSome_map]

/-- The histogram counts each displacement. -/
theorem getD_histogram (t : Table α) (d : ℕ) : t.histogram.getD d 0 = t.displacements.count d := by
  rw [histogram, getD_foldl_tally]
  simp

/-- The histogram reaches up to the largest displacement. -/
theorem lt_size_histogram_iff {d : ℕ} :
    d < t.histogram.size ↔ ∃ value ∈ t.displacements, d ≤ value := by
  rw [histogram, lt_size_foldl_tally_iff]
  simp

/-- The histogram counts every entry once. -/
theorem WellFormed.sum_histogram (hw : t.WellFormed) : t.histogram.sum = t.size := by
  rw [histogram, sum_foldl_tally, hw.length_displacements, Array.sum_empty, Nat.zero_add]

/-- Below the displacement of an entry, every displacement is that of some entry. -/
theorem WellFormed.mem_displacements_of_le (hw : t.WellFormed) {d value : ℕ}
    (h : value ∈ t.displacements) (hle : d ≤ value) : d ∈ t.displacements := by
  have hc := hw.capacity_pos
  obtain ⟨i, -, slot, hget, hvalue⟩ := mem_displacements.1 h
  obtain ⟨start, -, hstart⟩ := (Slots.hasRunStart_iff_depth t.slots).1 hw.hasRunStart
  obtain ⟨k, -, hk⟩ := Slots.exists_add_mod_eq hc start i
  -- From the start of a run to the entry the depth rises to one more than its displacement.
  have hdepth : t.slots.depth (start + k) = value + 1 := by
    rw [Slots.depth_congr t.slots hc hk, Slots.depth_of_get hget, ← hvalue]
    rfl
  obtain ⟨j, -, hj⟩ := hw.ordered.exists_depth_eq (i := start) (k := k) (d := d + 1) (by omega)
    (by omega)
  obtain ⟨other, hother, hdisplacement⟩ := Slots.exists_get_of_depth_pos
    (show 0 < t.slots.depth (start + j) by omega)
  have hmem := mem_displacements_of_get hc hother
  have heq : displacement other.hash (start + j) t.capacity = d := by
    show t.slots.displacementAt (start + j) other = d
    omega
  rwa [heq] at hmem

/-! ## No gaps -/

/-- What the histogram of a table shows. -/
structure Gapless (t : Table α) : Prop where
  /-- Its bucket `d` counts the entries that sit `d` slots past their home bucket, and there are
  none beyond its last bucket. -/
  count : ∀ d, t.histogram.getD d 0 = t.displacedBy d
  /-- The buckets together count every entry once. -/
  sum_eq : t.histogram.sum = t.size
  /-- There is no bucket exactly when there is no entry. -/
  eq_empty_iff : t.histogram = #[] ↔ t.isEmpty = true
  /-- Otherwise there is one more than the largest displacement. -/
  size_eq : t.isEmpty = false → ∃ d,
    IsGreatest {d | ∃ i slot, t.slots.get i = some slot ∧
      displacement slot.hash i t.capacity = d} d ∧ t.histogram.size = d + 1
  /-- No bucket is empty. -/
  pos : ∀ d (h : d < t.histogram.size), 1 ≤ t.histogram[d]
  /-- No entry is displaced by as many slots as there are entries. -/
  displacement_lt : ∀ i slot, t.slots.get i = some slot →
    displacement slot.hash i t.capacity < t.size

/-- In a well-formed table no bucket of the histogram is empty. -/
theorem WellFormed.one_le_histogram (hw : t.WellFormed) {d : ℕ} (hd : d < t.histogram.size) :
    1 ≤ t.histogram[d] := by
  obtain ⟨value, hvalue, hle⟩ := lt_size_histogram_iff.1 hd
  have hcount := getD_histogram t d
  rw [Array.getD_eq_getD_getElem?, Array.getElem?_eq_getElem hd, Option.getD_some] at hcount
  rw [hcount]
  exact List.count_pos_iff.2 (hw.mem_displacements_of_le hvalue hle)

/-- So there are no more buckets than entries. -/
theorem WellFormed.size_histogram_le (hw : t.WellFormed) : t.histogram.size ≤ t.size := by
  have hbuckets : ∀ count ∈ t.histogram.toList, 1 ≤ count := by
    intro count hcount
    obtain ⟨d, hd, rfl⟩ := Array.mem_iff_getElem.1 (Array.mem_toList_iff.1 hcount)
    exact hw.one_le_histogram hd
  calc t.histogram.size = t.histogram.toList.length := Array.length_toList.symm
    _ ≤ t.histogram.toList.sum := List.length_le_sum_of_one_le _ hbuckets
    _ = t.histogram.sum := Array.sum_toList
    _ = t.size := hw.sum_histogram

/-- The histogram of a table that comes about, completely full ones included, has no gaps. -/
theorem gapless_of_reachable (h : t.Reachable) : t.Gapless := by
  have hw := h.wellFormed
  have hc := hw.capacity_pos
  have hlt : ∀ i slot, t.slots.get i = some slot →
      displacement slot.hash i t.capacity < t.histogram.size := fun i slot hget =>
    lt_size_histogram_iff.2 ⟨_, mem_displacements_of_get hc hget, Nat.le_refl _⟩
  have hempty : t.histogram.size = 0 ↔ t.size = 0 := by
    have hle := hw.size_histogram_le
    constructor
    · intro hzero
      rw [← hw.length_displacements, List.length_eq_zero_iff, List.eq_nil_iff_forall_not_mem]
      intro value hvalue
      have hbucket := lt_size_histogram_iff.2 ⟨value, hvalue, Nat.zero_le value⟩
      omega
    · omega
  constructor
  case count => exact fun d => (getD_histogram t d).trans (count_displacements t d)
  case sum_eq => exact hw.sum_histogram
  case eq_empty_iff => rw [← Array.size_eq_zero_iff, hempty, isEmpty, beq_iff_eq]
  case size_eq =>
    intro hsome
    have hpos : t.histogram.size ≠ 0 := mt hempty.1 (beq_eq_false_iff_ne.1 hsome)
    refine ⟨t.histogram.size - 1, ⟨?_, ?_⟩, by omega⟩
    · -- The last bucket is there because of an entry.
      obtain ⟨value, hvalue, hle⟩ := lt_size_histogram_iff.1
        (show t.histogram.size - 1 < t.histogram.size by omega)
      obtain ⟨i, -, slot, hget, hdisplacement⟩ := mem_displacements.1 hvalue
      have := hlt i slot hget
      exact ⟨i, slot, hget, by omega⟩
    · rintro d ⟨i, slot, hget, rfl⟩
      have := hlt i slot hget
      omega
  case pos => exact fun d hd => hw.one_le_histogram hd
  case displacement_lt =>
    exact fun i slot hget => (hlt i slot hget).trans_le hw.size_histogram_le

/-- A run of three entries over the end of a table of four slots, which a fourth makes full: two of
them are displaced by two slots each. -/
theorem gapless_of_wrapped_and_full : ∃ t u : Table ℕ, t.Reachable ∧
    t.slots.cells.toList.map (·.map Slot.item) = [some 6, some 7, none, some 5] ∧
    t.histogram = #[1, 1, 1] ∧ t.Gapless ∧ u.Reachable ∧ u.size = u.capacity ∧
    u.histogram = #[1, 1, 2] ∧ u.Gapless := by
  have ht : ([5, 6, 7].foldl
      (fun t item => (t.insert (fun _ => true) .disabled 3 item fun _ => false).state)
      (empty : Table ℕ)).Reachable :=
    .step (.step (.step .empty (.insert _ _ _ _ _ _)) (.insert _ _ _ _ _ _)) (.insert _ _ _ _ _ _)
  have hu := Reachable.step ht (.insert _ (fun _ => true) .disabled 0 8 fun _ => false)
  exact ⟨_, _, ht, by decide +kernel, by decide +kernel, gapless_of_reachable ht, hu,
    by decide +kernel, by decide +kernel, gapless_of_reachable hu⟩

end Table

end OpenAddressing
