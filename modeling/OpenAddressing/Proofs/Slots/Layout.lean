import Mathlib.Data.Nat.Count
import Mathlib.Data.Nat.ModEq
import OpenAddressing.Proofs.Slots.Contents

/-!
# The layout is a function of the home buckets

The reach of an index is how many entries lie at or after it whose home bucket is the index itself
or comes before it. In robin-hood order these entries stand on that many slots in a row
(`Ordered.reach_le_iff`), so that the reach at every index gives the depth at every slot.

From one index to the next the reach loses one entry, if there is one, and gains those whose home
bucket is the next index (`Ordered.reach_succ`). So it is determined by the home buckets, once it is
known at one index: and it is, because a run starts somewhere and nothing reaches across its start.
Two rings whose entries have the same home buckets therefore have the same depths
(`depth_eq_of_homes_eq`) and hold entries with the same home bucket in each slot
(`map_home_eq_of_depth_eq`), whatever moved the entries there.
-/

namespace OpenAddressing

universe u v

/-! ## Counting -/

/-- A property that passes from every number to the one before holds of the numbers below its
count. -/
theorem count_le_iff_of_descending {p : ℕ → Prop} [DecidablePred p] (h : ∀ k, p (k + 1) → p k)
    {k n : ℕ} (hk : k < n) : n.count p ≤ k ↔ ¬ p k := by
  have hdown : ∀ a b, p (a + b) → p a := fun a b => by
    induction b with
    | zero => exact id
    | succ b ih => exact fun hp => ih (h _ hp)
  constructor
  · intro hle hp
    have hall : (k + 1).count p = k + 1 :=
      Nat.count_of_forall fun m hm => hdown m (k - m) (by rwa [Nat.add_sub_of_le (by omega)])
    have hmono : (k + 1).count p ≤ n.count p := Nat.count_monotone p hk
    omega
  · intro hp
    have hnone : (n - k).count (fun m => p (k + m)) = 0 :=
      Nat.count_of_forall_not fun m _ hm => hp (hdown k m hm)
    calc n.count p = k.count p + (n - k).count (fun m => p (k + m)) := by
          rw [← Nat.count_add, Nat.add_sub_of_le (by omega)]
      _ = k.count p := by rw [hnone, Nat.add_zero]
      _ ≤ k := Nat.count_le _

/-- The numbers that lie below a bound of their own are those that lie below it by more than one and
those that lie below it by one. -/
theorem count_lt_eq_add (f : ℕ → ℕ) (n : ℕ) :
    n.count (fun k => k < f k) = n.count (fun k => k + 1 < f k) + n.count fun k => f k = k + 1 := by
  induction n with
  | zero => rfl
  | succ n ih =>
    rw [Nat.count_succ, Nat.count_succ, Nat.count_succ, ih]
    split_ifs <;> omega

namespace Slots

variable {α : Type u} {β : Type v} {s : Slots α} {t : Slots β}

/-! ## Reach -/

/-- How many entries lie at or after `index` with their home bucket at or before it, counted within
one round. -/
def reach (s : Slots α) (index : ℕ) : ℕ := s.capacity.count fun k => k < s.depth (index + k)

/-- How many entries have their home bucket at `index`. -/
def homeCount (s : Slots α) (index : ℕ) : ℕ :=
  s.capacity.count fun k => s.depth (index + k) = k + 1

/-- In robin-hood order the entries that reach across `index` stand next to each other from it
on. -/
theorem Ordered.reach_le_iff (ho : s.Ordered) (hc : 0 < s.capacity) (index k : ℕ) :
    s.reach index ≤ k ↔ s.depth (index + k) ≤ k := by
  rcases Nat.lt_or_ge k s.capacity with hk | hk
  · have hdown : ∀ k, k + 1 < s.depth (index + (k + 1)) → k < s.depth (index + k) := fun k hlt => by
      have hstep := (ordered_iff_depth s).1 ho (index + k)
      rw [← Nat.add_assoc] at hlt
      omega
    unfold reach
    rw [count_le_iff_of_descending hdown hk, Nat.not_lt]
  · -- A round on, both sides are a matter of the number of slots.
    have hreach : s.reach index ≤ s.capacity := Nat.count_le _
    have hdepth := depth_le_capacity s hc (index + k)
    exact ⟨fun _ => by omega, fun _ => by omega⟩

/-- A step on, the reach loses the entry that stood at the index and gains those that have their
home bucket at the next. -/
theorem Ordered.reach_succ (ho : s.Ordered) (hc : 0 < s.capacity) (index : ℕ) :
    s.reach (index + 1) = s.reach index - 1 + s.homeCount (index + 1) := by
  have hlast : ¬ s.capacity < s.depth (index + s.capacity) :=
    Nat.not_lt.2 (depth_le_capacity s hc _)
  -- The same slots, counted from the next index, the first one apart.
  have hround : s.reach index
      = s.capacity.count (fun k => k + 1 < s.depth (index + 1 + k))
        + if 0 < s.depth index then 1 else 0 := by
    have hcount := Nat.count_succ' (fun k => k < s.depth (index + k)) s.capacity
    rw [Nat.count_succ, if_neg hlast, Nat.add_zero] at hcount
    unfold reach
    simpa only [Nat.add_assoc, Nat.add_comm 1, Nat.add_zero] using hcount
  have hzero : s.reach index = 0 ↔ s.depth index = 0 := by
    simpa using ho.reach_le_iff hc index 0
  have hnext : s.reach (index + 1)
      = s.capacity.count (fun k => k + 1 < s.depth (index + 1 + k)) + s.homeCount (index + 1) :=
    count_lt_eq_add (fun k => s.depth (index + 1 + k)) s.capacity
  split_ifs at hround with hpos <;> omega

/-- The reach goes round the ring with the index. -/
theorem reach_add_capacity (s : Slots α) (hc : 0 < s.capacity) (index : ℕ) :
    s.reach (index + s.capacity) = s.reach index := by
  unfold reach
  simp only [Nat.add_right_comm index s.capacity, depth_add_capacity s hc]

/-- Nothing reaches across the start of a run. -/
theorem Ordered.exists_reach_le_one (ho : s.Ordered) (hc : 0 < s.capacity) (hs : s.HasRunStart) :
    ∃ index, s.reach index ≤ 1 := by
  obtain ⟨i, -, hi⟩ := (hasRunStart_iff_depth s).1 hs
  refine ⟨i + (s.capacity - 1), (ho.reach_le_iff hc _ 1).2 ?_⟩
  rwa [show i + (s.capacity - 1) + 1 = i + s.capacity by omega, depth_add_capacity s hc]

/-- With the same home buckets, the ring that has the start of a run reaches no further than the
other. -/
theorem Ordered.reach_le_reach (hs : s.Ordered) (hstart : s.HasRunStart) (ht : t.Ordered)
    (hc : 0 < s.capacity) (hcap : s.capacity = t.capacity)
    (hhome : ∀ i, s.homeCount i = t.homeCount i) (index : ℕ) : s.reach index ≤ t.reach index := by
  have hct : 0 < t.capacity := by omega
  obtain ⟨start, hreach⟩ := hs.exists_reach_le_one hc hstart
  -- After the start the reach is the least that the home buckets allow, and stays so.
  have hafter : ∀ n, s.reach (start + 1 + n) ≤ t.reach (start + 1 + n) := fun n => by
    induction n with
    | zero =>
      have h1 := hs.reach_succ hc start
      have h2 := ht.reach_succ hct start
      have h3 := hhome (start + 1)
      simp only [Nat.add_zero]
      omega
    | succ n ih =>
      have h1 := hs.reach_succ hc (start + 1 + n)
      have h2 := ht.reach_succ hct (start + 1 + n)
      have h3 := hhome (start + 1 + n + 1)
      rw [Nat.add_assoc] at h1 h2 h3
      omega
  -- Every index is met again some rounds after the start.
  have hrounds : ∀ n, s.reach (index + n * s.capacity) = s.reach index ∧
      t.reach (index + n * s.capacity) = t.reach index := fun n => by
    induction n with
    | zero => simp
    | succ n ih =>
      rw [Nat.succ_mul, ← Nat.add_assoc, reach_add_capacity s hc, hcap, reach_add_capacity t hct,
        ← hcap]
      exact ih
  obtain ⟨h1, h2⟩ := hrounds (start + 1)
  have hfar : start + 1 ≤ (start + 1) * s.capacity := Nat.le_mul_of_pos_right _ hc
  have hle := hafter (index + (start + 1) * s.capacity - (start + 1))
  rw [show start + 1 + (index + (start + 1) * s.capacity - (start + 1))
    = index + (start + 1) * s.capacity by omega, h1, h2] at hle
  exact hle

/-- Rings with equally many entries for every home bucket have the same depths. -/
theorem depth_eq_of_homeCount_eq (hs : s.Ordered) (hsr : s.HasRunStart) (ht : t.Ordered)
    (htr : t.HasRunStart) (hc : 0 < s.capacity) (hcap : s.capacity = t.capacity)
    (hhome : ∀ i, s.homeCount i = t.homeCount i) (i : ℕ) : s.depth i = t.depth i := by
  have hct : 0 < t.capacity := by omega
  have hreach : ∀ i, s.reach i = t.reach i := fun i =>
    Nat.le_antisymm (hs.reach_le_reach hsr ht hc hcap hhome i)
      (ht.reach_le_reach htr hs hct hcap.symm (fun i => (hhome i).symm) i)
  -- The depth is at most `d` when no more than `d` entries reach across the slot `d` before.
  have hle : ∀ d ≤ s.capacity, s.depth i ≤ d ↔ t.depth i ≤ d := fun d hd => by
    have h1 := hs.reach_le_iff hc (i + (s.capacity - d)) d
    have h2 := ht.reach_le_iff hct (i + (s.capacity - d)) d
    rw [show i + (s.capacity - d) + d = i + s.capacity by omega] at h1 h2
    rw [depth_add_capacity s hc] at h1
    rw [hcap, depth_add_capacity t hct, ← hcap] at h2
    rw [← h1, ← h2, hreach]
  have hls := depth_le_capacity s hc i
  have hlt := depth_le_capacity t hct i
  exact Nat.le_antisymm ((hle _ (by omega)).2 (Nat.le_refl _)) ((hle _ hls).1 (Nat.le_refl _))

/-! ## Home buckets -/

/-- The home buckets of the entries, in no order. -/
def homes (s : Slots α) : Multiset ℕ := s.contents.map fun slot => home slot.hash s.capacity

/-- Places of the ring are equal when the same number of slots leads from them to the same place. -/
theorem home_eq_of_add_mod_eq {hash : UInt32} {c i d : ℕ} (hc : 0 < c)
    (h : (home hash c + d) % c = (i + d) % c) : home hash c = i % c := by
  have hmod : home hash c % c = i % c := Nat.ModEq.add_right_cancel' d h
  rwa [Nat.mod_eq_of_lt (home_lt hash hc)] at hmod

/-- What lies `k` slots on from `index` has its home bucket at `index` when its depth is `k + 1`. -/
theorem map_home_eq_some_iff (s : Slots α) {index k : ℕ} (hk : k < s.capacity) :
    (s.get (index + k)).map (fun slot => home slot.hash s.capacity) = some (index % s.capacity)
      ↔ s.depth (index + k) = k + 1 := by
  have hc : 0 < s.capacity := by omega
  cases hget : s.get (index + k) with
  | none => simp [depth_eq_zero_iff.2 hget]
  | some slot =>
    rw [Option.map_some, Option.some_inj, depth_of_get hget, Nat.add_right_cancel_iff]
    constructor
    · intro hhome
      exact displacement_unique hk (by rw [hhome, Nat.mod_add_mod])
    · intro hdisp
      have hplace := home_add_displacement slot.hash (index + k) hc
      unfold displacementAt at hdisp
      rw [hdisp] at hplace
      exact home_eq_of_add_mod_eq hc hplace

/-- Each home bucket occurs once for every entry that has it. -/
theorem count_homes (s : Slots α) (index : ℕ) :
    s.homes.count (index % s.capacity) = s.homeCount index := by
  -- Both sides count slots of the round that starts at the index.
  have hrange : List.range' index s.capacity = (List.range s.capacity).map (index + ·) :=
    List.range'_eq_map_range ..
  unfold homes homeCount Nat.count
  rw [← coe_stretch_capacity s index, Multiset.map_coe, Multiset.coe_count, List.count, stretch,
    List.map_filterMap, List.countP_filterMap, hrange, List.countP_map]
  refine List.countP_congr fun k hk => ?_
  simp only [Function.comp_apply, decide_eq_true_iff]
  rw [← map_home_eq_some_iff s (List.mem_range.1 hk)]
  cases s.get (index + k) <;> simp

/-- Rings whose entries have the same home buckets have the same depths. -/
theorem depth_eq_of_homes_eq (hs : s.Ordered) (hsr : s.HasRunStart) (ht : t.Ordered)
    (htr : t.HasRunStart) (hc : 0 < s.capacity) (hcap : s.capacity = t.capacity)
    (hhome : s.homes = t.homes) (i : ℕ) : s.depth i = t.depth i := by
  refine depth_eq_of_homeCount_eq hs hsr ht htr hc hcap (fun j => ?_) i
  rw [← count_homes, ← count_homes, hhome, hcap]

/-- The displacement of what a slot holds, and with it the home bucket, follow from its depth. -/
theorem map_home_eq_of_depth_eq (hc : 0 < s.capacity) (hcap : s.capacity = t.capacity) {i : ℕ}
    (h : s.depth i = t.depth i) :
    (s.get i).map (fun slot => home slot.hash s.capacity)
        = (t.get i).map (fun slot => home slot.hash t.capacity) ∧
      (s.get i).map (s.displacementAt i) = (t.get i).map (t.displacementAt i) := by
  have hct : 0 < t.capacity := by omega
  cases hs : s.get i with
  | none =>
    rw [depth_eq_zero_iff.2 hs] at h
    rw [depth_eq_zero_iff.1 h.symm]
    exact ⟨rfl, rfl⟩
  | some a =>
    obtain ⟨b, hb, hdb⟩ := exists_get_of_depth_pos (s := t) (i := i) (by
      rw [← h, depth_of_get hs]; omega)
    rw [depth_of_get hs, hdb, Nat.add_right_cancel_iff] at h
    unfold displacementAt at h
    rw [hcap] at h
    -- Home buckets as many slots before the same place are equal.
    have hplace := home_add_displacement a.hash i hct
    rw [h, ← home_add_displacement b.hash i hct] at hplace
    have hhome := home_eq_of_add_mod_eq hct hplace
    rw [Nat.mod_eq_of_lt (home_lt b.hash hct)] at hhome
    rw [hb, Option.map_some, Option.map_some, Option.map_some, Option.map_some, hcap, hhome]
    unfold displacementAt
    rw [hcap, h]
    exact ⟨rfl, rfl⟩

end Slots

end OpenAddressing
