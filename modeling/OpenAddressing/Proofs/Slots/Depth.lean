import Mathlib.Data.Nat.Notation
import OpenAddressing.Slots.Order

/-!
# The depth of a slot

The depth of a taken slot is one more than the displacement of its entry, and a vacant slot has
depth zero. Robin-hood order says no more than that the depth rises by at most one from a slot to
the next (`ordered_iff_depth`), vacant slots included, and a run starts where the depth is at most
one (`hasRunStart_iff_depth`). The depth goes round the ring with the index (`depth_congr`), so
that the slot before `index` can be named without subtraction, as the one `capacity - 1` slots on.

Writing a slot keeps the order when the depth written fits between its two neighbours
(`Ordered.set`). Placing an entry and taking one out both go by that.
-/

namespace OpenAddressing

universe u

/-! ## Displacements -/

/-- A home bucket is a slot. -/
theorem home_lt (hash : UInt32) {capacity : ℕ} (hc : 0 < capacity) :
    home hash capacity < capacity :=
  Nat.mod_lt _ hc

/-- An entry has displacement zero at its home bucket. -/
theorem displacement_home (hash : UInt32) (capacity : ℕ) :
    displacement hash (home hash capacity) capacity = 0 := by
  unfold displacement
  rw [Nat.add_sub_cancel_left, Nat.mod_self]

/-- One slot further on the displacement is one more, unless that is the number of slots. -/
theorem displacement_succ {hash : UInt32} {index capacity : ℕ}
    (h : displacement hash index capacity + 1 < capacity) :
    displacement hash (index + 1) capacity = displacement hash index capacity + 1 := by
  have hlt : home hash capacity < capacity := home_lt hash (by omega)
  unfold displacement at h ⊢
  rw [show index + 1 + capacity - home hash capacity = index + capacity - home hash capacity + 1
    by omega, ← Nat.mod_add_mod, Nat.mod_eq_of_lt h]

/-- One slot back the displacement of an entry away from its home bucket is one less. -/
theorem displacement_of_succ_pos {hash : UInt32} {index capacity : ℕ} (hc : 0 < capacity)
    (h : 0 < displacement hash (index + 1) capacity) :
    displacement hash index capacity + 1 = displacement hash (index + 1) capacity := by
  have hlt := displacement_lt hash index hc
  by_cases hwrap : displacement hash index capacity + 1 < capacity
  · exact (displacement_succ hwrap).symm
  · -- The slot after the last displacement is the home bucket again.
    have hlast : displacement hash index capacity + 1 = capacity := by omega
    have hhome := home_lt hash hc
    have hzero : displacement hash (index + 1) capacity = 0 := by
      unfold displacement at hlast ⊢
      rw [show index + 1 + capacity - home hash capacity
        = index + capacity - home hash capacity + 1 by omega, ← Nat.mod_add_mod, hlast,
        Nat.mod_self]
    omega

/-- The displacement is the only number of slots below a round that leads from the home bucket to
the index. -/
theorem displacement_unique {hash : UInt32} {index capacity d : ℕ} (hd : d < capacity)
    (h : (home hash capacity + d) % capacity = index % capacity) :
    displacement hash index capacity = d := by
  have hc : 0 < capacity := by omega
  have hhome := home_lt hash hc
  rw [← displacement_mod hash index hc, ← h, displacement_mod hash _ hc]
  unfold displacement
  rw [show home hash capacity + d + capacity - home hash capacity = d + capacity by omega,
    Nat.add_mod_right, Nat.mod_eq_of_lt hd]

/-! ## Depths -/

/-- The depth of what a slot holds at an index: zero for nothing, and one more than the displacement
for an entry. -/
def depthIn {α : Type u} (capacity index : ℕ) : Option (Slot α) → ℕ
  | none => 0
  | some slot => displacement slot.hash index capacity + 1

namespace Slots

variable {α : Type u}

/-- The depth of the slot at `index`, counted round the ring. -/
def depth (s : Slots α) (index : ℕ) : ℕ := depthIn s.capacity index (s.get index)

/-- The depth of the slot before `index`, counted round the ring. -/
def depthBefore (s : Slots α) (index : ℕ) : ℕ := s.depth (index + (s.capacity - 1))

/-- Slots at the same place of the ring hold the same. -/
theorem get_congr (s : Slots α) {i j : ℕ} (h : i % s.capacity = j % s.capacity) :
    s.get i = s.get j := by
  rw [← get_mod s i, h, get_mod]

/-- Slots at the same place of the ring have the same depth. -/
theorem depth_congr (s : Slots α) (hc : 0 < s.capacity) {i j : ℕ}
    (h : i % s.capacity = j % s.capacity) : s.depth i = s.depth j := by
  unfold depth
  rw [get_congr s h]
  cases s.get j with
  | none => rfl
  | some slot =>
    simp only [depthIn]
    rw [← displacement_mod _ i hc, h, displacement_mod _ j hc]

/-- A round further on the depth is the same. -/
theorem depth_add_capacity (s : Slots α) (hc : 0 < s.capacity) (i : ℕ) :
    s.depth (i + s.capacity) = s.depth i :=
  depth_congr s hc (Nat.add_mod_right ..)

/-- A round further on a slot holds the same. -/
theorem get_add_capacity (s : Slots α) (i : ℕ) : s.get (i + s.capacity) = s.get i :=
  get_congr s (Nat.add_mod_right ..)

/-- The depth of a taken slot. -/
theorem depth_of_get {s : Slots α} {i : ℕ} {slot : Slot α} (h : s.get i = some slot) :
    s.depth i = s.displacementAt i slot + 1 := by
  unfold depth
  rw [h]
  rfl

/-- The vacant slots are those of depth zero. -/
theorem depth_eq_zero_iff {s : Slots α} {i : ℕ} : s.depth i = 0 ↔ s.get i = none := by
  unfold depth
  cases s.get i <;> simp [depthIn]

/-- What writing an entry makes the depth of a slot. -/
theorem depthIn_some (s : Slots α) (i : ℕ) (slot : Slot α) :
    depthIn s.capacity i (some slot) = s.displacementAt i slot + 1 := rfl

/-- A slot of positive depth is taken. -/
theorem exists_get_of_depth_pos {s : Slots α} {i : ℕ} (h : 0 < s.depth i) :
    ∃ slot, s.get i = some slot ∧ s.depth i = s.displacementAt i slot + 1 := by
  cases hs : s.get i with
  | none => rw [depth_eq_zero_iff.2 hs] at h; omega
  | some slot => exact ⟨slot, rfl, depth_of_get hs⟩

/-- No depth exceeds the number of slots. -/
theorem depth_le_capacity (s : Slots α) (hc : 0 < s.capacity) (i : ℕ) :
    s.depth i ≤ s.capacity := by
  unfold depth
  cases s.get i with
  | none => exact Nat.zero_le _
  | some slot => exact displacement_lt slot.hash i hc

/-- Robin-hood order lets the depth rise by at most one from a slot to the next. -/
theorem ordered_iff_depth (s : Slots α) : s.Ordered ↔ ∀ i, s.depth (i + 1) ≤ s.depth i + 1 := by
  unfold Ordered
  refine forall_congr' fun i => ?_
  unfold OrderedAt depth displacementAt
  cases s.get i <;> cases s.get (i + 1) <;> simp [depthIn]

/-- A run starts where the depth is at most one. -/
theorem hasRunStart_iff_depth (s : Slots α) : s.HasRunStart ↔ ∃ i < s.capacity, s.depth i ≤ 1 := by
  unfold HasRunStart
  refine exists_congr fun i => and_congr_right fun _ => ?_
  unfold depth displacementAt
  cases s.get i <;> simp [depthIn]

/-- Any slot of depth at most one, in whatever round its index is, starts a run. -/
theorem hasRunStart_of_depth {s : Slots α} (hc : 0 < s.capacity) {i : ℕ} (h : s.depth i ≤ 1) :
    s.HasRunStart := by
  refine (hasRunStart_iff_depth s).2 ⟨i % s.capacity, Nat.mod_lt _ hc, ?_⟩
  rwa [depth_congr s hc (Nat.mod_mod _ _)]

/-- Two indices less than a round apart lie at different places of the ring. -/
theorem mod_ne_add_mod {c : ℕ} (i : ℕ) {k : ℕ} (h0 : 0 < k) (hk : k < c) :
    i % c ≠ (i + k) % c := by
  intro h
  have hzero := Nat.sub_mod_eq_zero_of_mod_eq h.symm
  rw [Nat.add_sub_cancel_left, Nat.mod_eq_of_lt hk] at hzero
  omega

/-- Every place of the ring lies less than a round on from any index. -/
theorem exists_add_mod_eq {c : ℕ} (hc : 0 < c) (i j : ℕ) : ∃ k < c, (i + k) % c = j % c := by
  refine ⟨(j + (c - i % c)) % c, Nat.mod_lt _ hc, ?_⟩
  have hi : i % c < c := Nat.mod_lt _ hc
  rw [Nat.add_mod_mod, ← Nat.mod_add_mod, show i % c + (j + (c - i % c)) = j + c by omega,
    Nat.add_mod_right]

/-- The order on the slots of one round, from wherever it starts, is the order of the ring. -/
theorem ordered_of_round {s : Slots α} (hc : 0 < s.capacity) (start : ℕ)
    (h : ∀ k < s.capacity, s.depth (start + k + 1) ≤ s.depth (start + k) + 1) : s.Ordered := by
  refine (ordered_iff_depth s).2 fun i => ?_
  obtain ⟨k, hk, hik⟩ := exists_add_mod_eq hc start i
  have hi1 : (start + k + 1) % s.capacity = (i + 1) % s.capacity := by
    rw [← Nat.mod_add_mod, hik, Nat.mod_add_mod]
  rw [← depth_congr s hc hik, ← depth_congr s hc hi1]
  exact h k hk

/-- In robin-hood order the depth rises by at most `k` over `k` slots. -/
theorem Ordered.depth_add_le {s : Slots α} (ho : s.Ordered) (i k : ℕ) :
    s.depth (i + k) ≤ s.depth i + k := by
  induction k with
  | zero => exact Nat.le_refl _
  | succ k ih =>
    have hstep := (ordered_iff_depth s).1 ho (i + k)
    rw [Nat.add_assoc] at hstep
    omega

/-- In robin-hood order the depth takes every value between those at two slots, of which the second
is the higher, on the way from one to the other. -/
theorem Ordered.exists_depth_eq {s : Slots α} (ho : s.Ordered) {i k d : ℕ} (hlow : s.depth i ≤ d)
    (hhigh : d ≤ s.depth (i + k)) : ∃ j ≤ k, s.depth (i + j) = d := by
  induction k with
  | zero => exact ⟨0, Nat.le_refl 0, Nat.le_antisymm hlow hhigh⟩
  | succ k ih =>
    rcases Nat.lt_or_ge (s.depth (i + k)) d with hlt | hge
    · -- The last step reaches the value, since it rises by one at most.
      have hstep := (ordered_iff_depth s).1 ho (i + k)
      rw [Nat.add_assoc] at hstep
      exact ⟨k + 1, Nat.le_refl _, by omega⟩
    · obtain ⟨j, hj, hdepth⟩ := ih hge
      exact ⟨j, Nat.le_succ_of_le hj, hdepth⟩

/-- The slot before the next one is this one. -/
theorem depthBefore_succ (s : Slots α) (hc : 0 < s.capacity) (i : ℕ) :
    s.depthBefore (i + 1) = s.depth i := by
  unfold depthBefore
  rw [show i + 1 + (s.capacity - 1) = i + s.capacity by omega, depth_add_capacity s hc]

/-- In robin-hood order the depth of a slot exceeds the one before it by at most one. -/
theorem Ordered.depth_le_depthBefore {s : Slots α} (ho : s.Ordered) (hc : 0 < s.capacity) (i : ℕ) :
    s.depth i ≤ s.depthBefore i + 1 := by
  have hstep := (ordered_iff_depth s).1 ho (i + (s.capacity - 1))
  rw [show i + (s.capacity - 1) + 1 = i + s.capacity by omega, depth_add_capacity s hc] at hstep
  exact hstep

/-! ## Writing a slot -/

/-- Writing a slot leaves all displacements alone. -/
@[simp] theorem displacementAt_set (s : Slots α) (i : ℕ) (x : Option (Slot α)) (j : ℕ)
    (slot : Slot α) : (s.set i x).displacementAt j slot = s.displacementAt j slot := by
  unfold displacementAt
  rw [capacity_set]

/-- The depth of a slot just written is that of what was written. -/
theorem depth_set_self (s : Slots α) (hc : 0 < s.capacity) (i : ℕ) (x : Option (Slot α)) :
    (s.set i x).depth i = depthIn s.capacity i x := by
  unfold depth
  rw [get_set_self s hc, capacity_set]

/-- Writing one slot leaves the depths of the others alone. -/
theorem depth_set_of_ne (s : Slots α) {i j : ℕ} (h : i % s.capacity ≠ j % s.capacity)
    (x : Option (Slot α)) : (s.set i x).depth j = s.depth j := by
  unfold depth
  rw [get_set_of_ne s h, capacity_set]

/-- Writing a slot keeps the order when the depth written exceeds the one before by at most one, and
the one after exceeds the depth written by at most one. -/
theorem Ordered.set {s : Slots α} (ho : s.Ordered) (hc : 2 ≤ s.capacity) {index : ℕ}
    {x : Option (Slot α)} (hbefore : depthIn s.capacity index x ≤ s.depthBefore index + 1)
    (hafter : s.depth (index + 1) ≤ depthIn s.capacity index x + 1) :
    (s.set index x).Ordered := by
  have hstep := (ordered_iff_depth s).1 ho
  have hcs : 0 < (s.set index x).capacity := by rw [capacity_set]; omega
  -- Counted from the slot written, only the first and the last step of the round are new.
  refine ordered_of_round hcs index fun k hk => ?_
  rw [capacity_set] at hk
  rcases Nat.eq_zero_or_pos k with rfl | hpos
  · simp only [Nat.add_zero]
    rw [depth_set_of_ne s (mod_ne_add_mod index Nat.one_pos hc), depth_set_self s (by omega)]
    exact hafter
  · rw [depth_set_of_ne s (mod_ne_add_mod index hpos hk)]
    rcases Nat.lt_or_ge (k + 1) s.capacity with hlt | hge
    · rw [Nat.add_assoc, depth_set_of_ne s (mod_ne_add_mod index (by omega) hlt)]
      exact hstep (index + k)
    · have hround : index + k + 1 = index + (s.set index x).capacity := by rw [capacity_set]; omega
      rw [hround, depth_add_capacity _ hcs, depth_set_self s (by omega),
        show k = s.capacity - 1 by omega]
      exact hbefore

/-! ## Rewriting items -/

/-- `t` holds the same hashes as `s` in the same slots. -/
structure SameHashes (s t : Slots α) : Prop where
  /-- No slot is added or dropped. -/
  capacity : t.capacity = s.capacity
  /-- Every slot holds the hash it held, or nothing as before. -/
  hash : ∀ i, (t.get i).map Slot.hash = (s.get i).map Slot.hash

namespace SameHashes

variable {s t : Slots α}

/-- The depths follow from the hashes. -/
theorem depth (h : SameHashes s t) (i : ℕ) : t.depth i = s.depth i := by
  have hi := h.hash i
  unfold Slots.depth
  rw [h.capacity]
  cases hs : s.get i with
  | none =>
    rw [hs, Option.map_none, Option.map_eq_none_iff] at hi
    rw [hi]
  | some old =>
    rw [hs, Option.map_some, Option.map_eq_some_iff] at hi
    obtain ⟨new, hnew, hhash⟩ := hi
    rw [hnew]
    simp only [depthIn, hhash]

/-- The order follows from the hashes. -/
theorem ordered (h : SameHashes s t) (ho : s.Ordered) : t.Ordered := by
  refine (ordered_iff_depth t).2 fun i => ?_
  rw [h.depth, h.depth]
  exact (ordered_iff_depth s).1 ho i

/-- Where runs start follows from the hashes. -/
theorem hasRunStart (h : SameHashes s t) (hs : s.HasRunStart) : t.HasRunStart := by
  obtain ⟨i, hi, hdepth⟩ := (hasRunStart_iff_depth s).1 hs
  refine (hasRunStart_iff_depth t).2 ⟨i, ?_, ?_⟩
  · rwa [h.capacity]
  · rwa [h.depth]

end SameHashes

/-- Overwriting an entry by one with the same hash keeps the hashes. -/
theorem sameHashes_set {s : Slots α} (hc : 0 < s.capacity) {index : ℕ} {old slot : Slot α}
    (hold : s.get index = some old) (hhash : slot.hash = old.hash) :
    SameHashes s (s.set index (some slot)) := by
  refine ⟨capacity_set .., fun i => ?_⟩
  by_cases h : index % s.capacity = i % s.capacity
  · have hcap : index % (s.set index (some slot)).capacity
        = i % (s.set index (some slot)).capacity := by
      rwa [capacity_set]
    rw [← get_congr _ hcap, get_set_self s hc, ← get_congr s h, hold, Option.map_some,
      Option.map_some, hhash]
  · rw [get_set_of_ne s h]

end Slots

end OpenAddressing
