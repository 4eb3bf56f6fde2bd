import Mathlib.Algebra.Order.Group.Multiset
import Mathlib.Tactic.Abel
import OpenAddressing.Proofs.Slots.Depth

/-!
# What a ring holds

`contents` is the multiset of the entries of a ring, and `stretch` lists the entries on some slots
in a row, counted round the ring. A stretch of a whole round is the contents from wherever it starts
(`coe_stretch_capacity`). Everything that moves entries is a series of writes, and a write exchanges
what the slot held for what was written (`contents_set`).

A ring has a vacant slot exactly when it holds fewer entries than it has slots
(`exists_get_eq_none_iff`).
-/

namespace OpenAddressing

universe u

/-- What a slot holds, as a multiset. -/
def held {α : Type u} : Option (Slot α) → Multiset (Slot α)
  | none => 0
  | some slot => {slot}

@[simp] theorem held_none {α : Type u} : held (none : Option (Slot α)) = 0 := rfl

@[simp] theorem held_some {α : Type u} (slot : Slot α) : held (some slot) = {slot} := rfl

namespace Slots

variable {α : Type u}

/-- The entries of the ring, in no order. -/
def contents (s : Slots α) : Multiset (Slot α) := s.entries

/-- The entries on the `n` slots from `index` on, in slot order. -/
def stretch (s : Slots α) (index n : ℕ) : List (Slot α) := (List.range' index n).filterMap s.get

@[simp] theorem contents_vacant (n : ℕ) : (vacant n : Slots α).contents = 0 := by
  simp [contents]

/-- The contents are the entries, counted with their order forgotten. -/
theorem card_contents (s : Slots α) : s.contents.card = s.entries.length := rfl

/-- The contents are what the slots of one round hold. -/
theorem mem_contents {s : Slots α} {slot : Slot α} :
    slot ∈ s.contents ↔ ∃ i < s.capacity, s.get i = some slot := mem_entries

/-- What a slot holds in whatever round is in the contents. -/
theorem mem_contents_of_get {s : Slots α} {i : ℕ} {slot : Slot α} (hc : 0 < s.capacity)
    (h : s.get i = some slot) : slot ∈ s.contents :=
  mem_contents.2 ⟨i % s.capacity, Nat.mod_lt _ hc, by rw [get_mod, h]⟩

/-! ## Stretches -/

@[simp] theorem stretch_zero (s : Slots α) (index : ℕ) : s.stretch index 0 = [] := rfl

/-- A stretch begins with what its first slot holds. -/
theorem stretch_succ (s : Slots α) (index n : ℕ) :
    s.stretch index (n + 1) = (s.get index).toList ++ s.stretch (index + 1) n := by
  unfold stretch
  rw [List.range'_succ, List.filterMap_cons]
  cases s.get index <;> rfl

/-- A stretch ends with what its last slot holds. -/
theorem stretch_succ_last (s : Slots α) (index n : ℕ) :
    s.stretch index (n + 1) = s.stretch index n ++ (s.get (index + n)).toList := by
  unfold stretch
  rw [List.range'_concat, List.filterMap_append, Nat.one_mul, List.filterMap_cons,
    List.filterMap_nil]
  cases s.get (index + n) <;> rfl

/-- A vacant slot first in a stretch adds nothing. -/
theorem stretch_of_get_none {s : Slots α} {index : ℕ} (h : s.get index = none) (n : ℕ) :
    s.stretch index (n + 1) = s.stretch (index + 1) n := by
  rw [stretch_succ, h]
  rfl

/-- A taken slot first in a stretch adds its entry. -/
theorem stretch_of_get_some {s : Slots α} {index : ℕ} {slot : Slot α} (h : s.get index = some slot)
    (n : ℕ) : s.stretch index (n + 1) = slot :: s.stretch (index + 1) n := by
  rw [stretch_succ, h]
  rfl

/-- A stretch of two parts. -/
theorem stretch_add (s : Slots α) (index m n : ℕ) :
    s.stretch index (m + n) = s.stretch index m ++ s.stretch (index + m) n := by
  unfold stretch
  rw [← List.filterMap_append, List.range'_append_1]

/-- Stretches whose slots hold the same are equal. -/
theorem stretch_congr {s t : Slots α} {i j n : ℕ} (h : ∀ k < n, s.get (i + k) = t.get (j + k)) :
    s.stretch i n = t.stretch j n := by
  induction n generalizing i j with
  | zero => rfl
  | succ n ih =>
    have htail : s.stretch (i + 1) n = t.stretch (j + 1) n :=
      ih fun k hk => by rw [Nat.add_right_comm, Nat.add_right_comm j]; exact h (k + 1) (by omega)
    have hhead : s.get i = t.get j := h 0 (by omega)
    rw [stretch_succ, stretch_succ, htail, hhead]

/-- The cells are what the slots of one round read. -/
theorem toList_cells (s : Slots α) : s.cells.toList = (List.range' 0 s.capacity).map s.get := by
  refine List.ext_getElem (by simp [capacity]) fun i h1 h2 => ?_
  rw [Array.length_toList] at h1
  rw [List.getElem_map, List.getElem_range', Array.getElem_toList, Nat.one_mul, Nat.zero_add,
    get_of_lt s h1]

/-- A cell is what its slot reads. -/
theorem getElem?_toList_cells (s : Slots α) {i : ℕ} (hi : i < s.capacity) :
    s.cells.toList[i]? = some (s.get i) := by
  rw [toList_cells, List.getElem?_map, List.getElem?_range' hi, Nat.one_mul, Nat.zero_add,
    Option.map_some]

/-- The entries in the first cells are those of a stretch. -/
theorem filterMap_take_cells (s : Slots α) {i : ℕ} (hi : i ≤ s.capacity) :
    (s.cells.toList.take i).filterMap id = s.stretch 0 i := by
  rw [toList_cells, ← List.map_take, List.take_range'_of_length_ge hi, List.filterMap_map]
  rfl

/-- The entries in slot order are a stretch of one round. -/
theorem entries_eq_stretch (s : Slots α) : s.entries = s.stretch 0 s.capacity := by
  unfold entries stretch
  rw [toList_cells, List.filterMap_map]
  rfl

/-- A stretch of one round holds the same from wherever it starts. -/
theorem coe_stretch_capacity (s : Slots α) (index : ℕ) :
    (s.stretch index s.capacity : Multiset (Slot α)) = s.contents := by
  induction index with
  | zero => rw [← entries_eq_stretch]; rfl
  | succ index ih =>
    rw [← ih]
    cases hcap : s.capacity with
    | zero => rfl
    | succ n =>
      -- The slot that the round from `index` has first, the round from `index + 1` has last.
      have hlast : s.get (index + 1 + n) = s.get index := by
        rw [Nat.add_assoc, Nat.add_comm 1 n, ← hcap, get_add_capacity]
      rw [stretch_succ_last, stretch_succ, hlast]
      exact Multiset.coe_eq_coe.2 List.perm_append_comm

/-- The contents are what one slot holds and the entries on the others. -/
theorem contents_eq_held_add (s : Slots α) (hc : 0 < s.capacity) (index : ℕ) :
    s.contents = held (s.get index) + s.stretch (index + 1) (s.capacity - 1) := by
  rw [← coe_stretch_capacity s index]
  conv_lhs => rw [show s.capacity = s.capacity - 1 + 1 by omega, stretch_succ]
  cases s.get index <;> simp

/-- A write exchanges what the slot held for what was written. -/
theorem contents_set (s : Slots α) (hc : 0 < s.capacity) (index : ℕ) (x : Option (Slot α)) :
    (s.set index x).contents + held (s.get index) = s.contents + held x := by
  have hrest : (s.set index x).stretch (index + 1) (s.capacity - 1)
      = s.stretch (index + 1) (s.capacity - 1) := by
    refine stretch_congr fun k hk => ?_
    rw [Nat.add_assoc, Nat.add_comm 1 k]
    exact get_set_of_ne s (mod_ne_add_mod index (by omega) (by omega)) x
  have hcset : 0 < (s.set index x).capacity := by rwa [capacity_set]
  rw [contents_eq_held_add s hc index, contents_eq_held_add (s.set index x) hcset index,
    get_set_self s hc, capacity_set, hrest]
  abel

/-- Filling a vacant slot adds the entry. -/
theorem contents_set_of_get_none {s : Slots α} (hc : 0 < s.capacity) {index : ℕ}
    (h : s.get index = none) (slot : Slot α) :
    (s.set index (some slot)).contents = slot ::ₘ s.contents := by
  have hset := contents_set s hc index (some slot)
  rwa [h, held_none, add_zero, held_some, add_comm, Multiset.singleton_add] at hset

/-- Overwriting an entry exchanges it for the other. -/
theorem cons_contents_set {s : Slots α} (hc : 0 < s.capacity) {index : ℕ} {old : Slot α}
    (h : s.get index = some old) (slot : Slot α) :
    old ::ₘ (s.set index (some slot)).contents = slot ::ₘ s.contents := by
  have hset := contents_set s hc index (some slot)
  rwa [h, held_some, held_some, add_comm, Multiset.singleton_add, add_comm,
    Multiset.singleton_add] at hset

/-- Emptying a taken slot takes its entry out. -/
theorem cons_contents_set_none {s : Slots α} (hc : 0 < s.capacity) {index : ℕ} {old : Slot α}
    (h : s.get index = some old) : old ::ₘ (s.set index none).contents = s.contents := by
  have hset := contents_set s hc index none
  rwa [h, held_some, held_none, add_zero, add_comm, Multiset.singleton_add] at hset

/-- Rings with the same hashes hold equally many entries. -/
theorem SameHashes.card_contents {s t : Slots α} (h : SameHashes s t) :
    t.contents.card = s.contents.card := by
  have hsome : ∀ i, (t.get i).isSome = (s.get i).isSome := fun i => by
    rw [← Option.isSome_map, h.hash i, Option.isSome_map]
  rw [Slots.card_contents, Slots.card_contents, entries_eq_stretch, entries_eq_stretch, h.capacity]
  unfold stretch
  rw [List.length_filterMap_eq_countP, List.length_filterMap_eq_countP]
  exact List.countP_congr fun i _ => by rw [hsome i]

/-! ## Vacant slots -/

/-- A stretch has an entry for every slot exactly when none of them is vacant. -/
theorem length_stretch_eq_iff (s : Slots α) (index n : ℕ) :
    (s.stretch index n).length = n ↔ ∀ k < n, s.get (index + k) ≠ none := by
  have hfull := List.filterMap_length_eq_length (f := s.get) (l := List.range' index n)
  rw [List.length_range'] at hfull
  unfold stretch
  rw [hfull]
  constructor
  · intro h k hk
    have := h (index + k) (List.mem_range'_1.2 ⟨by omega, by omega⟩)
    exact Option.isSome_iff_ne_none.1 this
  · intro h i hi
    obtain ⟨hi1, hi2⟩ := List.mem_range'_1.1 hi
    have := h (i - index) (by omega)
    rw [show index + (i - index) = i by omega] at this
    exact Option.isSome_iff_ne_none.2 this

/-- From any index on there is a vacant slot within a round exactly when there are fewer entries
than slots. -/
theorem exists_get_eq_none_iff (s : Slots α) (index : ℕ) :
    (∃ k < s.capacity, s.get (index + k) = none) ↔ s.contents.card < s.capacity := by
  have hle : s.contents.card ≤ s.capacity := length_entries_le s
  have hcard : s.contents.card = (s.stretch index s.capacity).length := by
    rw [← coe_stretch_capacity s index, Multiset.coe_card]
  have hfull := length_stretch_eq_iff s index s.capacity
  rw [← hcard] at hfull
  constructor
  · rintro ⟨k, hk, hnone⟩
    have hne : s.contents.card ≠ s.capacity := fun h => hfull.1 h k hk hnone
    omega
  · intro hlt
    by_contra hnone
    push Not at hnone
    have := hfull.2 hnone
    omega

end Slots

end OpenAddressing
