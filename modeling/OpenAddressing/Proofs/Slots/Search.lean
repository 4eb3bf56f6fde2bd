import OpenAddressing.Proofs.Slots.Contents
import OpenAddressing.Slots.Search

/-!
# A search misses nothing

In robin-hood order the slots from the home bucket of an entry up to the entry are taken, and `k`
slots past the bucket the displacement is at least `k`. So a search passes neither a vacant slot nor
an entry displaced by less than the slots it has passed before it comes to an entry with the hash
sought (`searchFrom_isSome`): it finds some entry exactly when the ring holds one
(`search_isSome_iff`).
-/

namespace OpenAddressing

universe u

namespace Slots

variable {α : Type u} {s : Slots α} {hash : UInt32} {eq : α → Bool}

/-- What a search finds lies in the first round. -/
theorem lt_of_searchFrom {left passed i : ℕ} (hc : 0 < s.capacity)
    (h : s.searchFrom hash eq left passed = some i) : i < s.capacity := by
  induction left generalizing passed with
  | zero => cases h
  | succ left ih =>
    rw [searchFrom] at h
    split at h
    · cases h
    · split at h
      · cases h
      · split at h
        · obtain rfl := Option.some.inj h
          exact Nat.mod_lt _ hc
        · exact ih h

/-- What a search finds lies in the first round. -/
theorem lt_of_search {i : ℕ} (hc : 0 < s.capacity) (h : s.search hash eq = some i) :
    i < s.capacity :=
  lt_of_searchFrom hc h

/-- In robin-hood order the slots from the home bucket up to a displaced entry are displaced at
least by their distance from the bucket. -/
theorem Ordered.depth_home_add {slot : Slot α} (ho : s.Ordered) {d k : ℕ}
    (hd : s.depth (home slot.hash s.capacity + d) = d + 1) (hk : k ≤ d) :
    k + 1 ≤ s.depth (home slot.hash s.capacity + k) := by
  have hrise := ho.depth_add_le (home slot.hash s.capacity + k) (d - k)
  rw [Nat.add_assoc, show k + (d - k) = d by omega, hd] at hrise
  omega

/-- A search that has not passed an entry with the hash sought yet finds one. -/
theorem searchFrom_isSome (ho : s.Ordered) {slot : Slot α} {left passed d : ℕ}
    (hslot : s.get (home slot.hash s.capacity + d) = some slot)
    (hd : s.displacementAt (home slot.hash s.capacity + d) slot = d) (heq : eq slot.item = true)
    (hpassed : passed ≤ d) (hleft : d < passed + left) :
    (s.searchFrom slot.hash eq left passed).isSome := by
  induction left generalizing passed with
  | zero => omega
  | succ left ih =>
    have hhome : s.depth (home slot.hash s.capacity + d) = d + 1 := by
      rw [depth_of_get hslot, hd]
    have hdepth := ho.depth_home_add hhome hpassed
    -- The slot is taken, by an entry displaced by at least the slots passed: no early exit.
    obtain ⟨resident, hres, hdres⟩ :=
      exists_get_of_depth_pos (Nat.lt_of_lt_of_le (Nat.succ_pos passed) hdepth)
    unfold displacementAt at hdres
    rw [searchFrom]
    simp only [hres]
    rw [if_neg (by omega)]
    split
    · rfl
    · rename_i hno
      have hne : passed ≠ d := by
        rintro rfl
        rw [hslot] at hres
        obtain rfl := Option.some.inj hres
        exact hno ⟨rfl, heq⟩
      exact ih (by omega) (by omega)

/-- In robin-hood order a search finds an entry exactly when the ring holds one with the hash sought
that is accepted. -/
theorem search_isSome_iff (ho : s.Ordered) (hc : 0 < s.capacity) :
    (s.search hash eq).isSome ↔ ∃ slot ∈ s.contents, slot.hash = hash ∧ eq slot.item = true := by
  constructor
  · intro h
    obtain ⟨i, hi⟩ := Option.isSome_iff_exists.1 h
    obtain ⟨slot, hget, hhash, heq⟩ := get_of_search hi
    exact ⟨slot, mem_contents_of_get hc hget, hhash, heq⟩
  · rintro ⟨slot, hmem, rfl, heq⟩
    obtain ⟨i, -, hi⟩ := mem_contents.1 hmem
    -- Count the index from the home bucket.
    have hplace := home_add_displacement slot.hash i hc
    have hd : displacement slot.hash i s.capacity < s.capacity := displacement_lt slot.hash i hc
    have hget := get_congr s hplace
    rw [hi] at hget
    refine searchFrom_isSome ho hget ?_ heq (Nat.zero_le _) (by omega)
    exact displacement_unique hd rfl

end Slots

end OpenAddressing
