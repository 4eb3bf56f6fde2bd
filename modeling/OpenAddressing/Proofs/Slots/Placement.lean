import OpenAddressing.Proofs.Slots.Contents
import OpenAddressing.Slots.Placement

/-!
# Placing keeps the order

`placeFrom` walks from the home bucket of the newcomer to a vacant slot with one entry in hand.
`InHand` is what holds of the ring and that entry at every slot of the walk: the ring is in order,
the entry in hand is not displaced by more than the slot before allows, and not by so much that its
displacement would reach a whole round before the vacant slot. A resident that stays keeps it
(`InHand.pass`), a resident that gives way keeps it for the ring with the two exchanged
(`InHand.swap`), and at the vacant slot the entry in hand completes the order
(`InHand.ordered_set`).

`place_spec` puts the walk together: on an ordered ring with a vacant slot, placing succeeds, keeps
the order, leaves a slot where a run starts, and adds the newcomer to the contents and nothing else.
-/

namespace OpenAddressing

universe u

namespace Slots

variable {α : Type u}

/-- What holds of the ring `s` and the entry in hand at `index` when the slot `k` further on is
vacant. -/
structure InHand (s : Slots α) (carried : Slot α) (index k : ℕ) : Prop where
  /-- The ring has slots to walk over. -/
  two_le : 2 ≤ s.capacity
  /-- The ring is in order, without the entry in hand. -/
  ordered : s.Ordered
  /-- The walk ends at a vacant slot. -/
  vacant : s.get (index + k) = none
  /-- The displacement of the entry in hand stays below a round up to there. -/
  room : s.displacementAt index carried + k < s.capacity
  /-- Here the entry in hand would not be displaced by more than the order allows. -/
  fits : s.displacementAt index carried ≤ s.depthBefore index

namespace InHand

variable {s : Slots α} {carried resident : Slot α} {index k : ℕ}

/-- At its home bucket an entry can be taken in hand, if some slot is vacant. -/
theorem start (hc : 2 ≤ s.capacity) (ho : s.Ordered)
    (hk : k < s.capacity) (hv : s.get (home carried.hash s.capacity + k) = none) :
    InHand s carried (home carried.hash s.capacity) k := by
  have hzero : s.displacementAt (home carried.hash s.capacity) carried = 0 :=
    displacement_home carried.hash s.capacity
  exact ⟨hc, ho, hv, by omega, by omega⟩

/-- The vacant slot is not the one here, if an entry resides here. -/
theorem exists_succ (h : InHand s carried index k) (hr : s.get index = some resident) :
    ∃ j, k = j + 1 := by
  cases k with
  | zero =>
    have hv := h.vacant
    rw [Nat.add_zero, hr] at hv
    cases hv
  | succ j => exact ⟨j, rfl⟩

/-- One slot further on the entry in hand is displaced by one more. -/
theorem displacementAt_succ (h : InHand s carried index (k + 1)) :
    s.displacementAt (index + 1) carried = s.displacementAt index carried + 1 := by
  have hroom := h.room
  exact displacement_succ (show s.displacementAt index carried + 1 < s.capacity by omega)

/-- A resident that stays leaves the entry in hand for the next slot. -/
theorem pass (h : InHand s carried index (k + 1)) (hr : s.get index = some resident)
    (hle : s.displacementAt index carried ≤ s.displacementAt index resident) :
    InHand s carried (index + 1) k := by
  have hc := h.two_le
  have hroom := h.room
  have hsucc := h.displacementAt_succ
  have hdepth := depth_of_get hr
  refine ⟨hc, h.ordered, ?_, by omega, ?_⟩
  · rw [Nat.add_right_comm]
    exact h.vacant
  · rw [depthBefore_succ s (by omega)]
    omega

/-- The entry in hand takes the slot of a resident closer to its home, who is in hand for the next
slot. -/
theorem swap (h : InHand s carried index (k + 1)) (hr : s.get index = some resident)
    (hlt : s.displacementAt index resident < s.displacementAt index carried) :
    InHand (s.set index (some carried)) resident (index + 1) k := by
  have hc := h.two_le
  have hroom := h.room
  have hfits := h.fits
  have hdepth := depth_of_get hr
  have hnext := (ordered_iff_depth s).1 h.ordered index
  have hwritten := depthIn_some s index carried
  have hsucc : s.displacementAt (index + 1) resident = s.displacementAt index resident + 1 :=
    displacement_succ (show s.displacementAt index resident + 1 < s.capacity by omega)
  refine ⟨by rwa [capacity_set], h.ordered.set hc (by omega) (by omega), ?_, ?_, ?_⟩
  · have hne := mod_ne_add_mod index (Nat.succ_pos k) (show k + 1 < s.capacity by omega)
    rw [Nat.add_assoc, Nat.add_comm 1 k, get_set_of_ne s hne]
    exact h.vacant
  · rw [displacementAt_set, capacity_set]
    omega
  · rw [displacementAt_set, depthBefore_succ _ (by rw [capacity_set]; omega), depth_set_self s (by omega)]
    omega

/-- At a vacant slot the entry in hand completes the order. -/
theorem ordered_set (h : InHand s carried index k) (hv : s.get index = none) :
    (s.set index (some carried)).Ordered := by
  have hfits := h.fits
  have hnext := (ordered_iff_depth s).1 h.ordered index
  have hzero := depth_eq_zero_iff.2 hv
  have hwritten := depthIn_some s index carried
  exact h.ordered.set h.two_le (by omega) (by omega)

/-- After a vacant slot a run starts, also when the slot is taken. -/
theorem hasRunStart_set (h : InHand s carried index k) (hv : s.get index = none) :
    (s.set index (some carried)).HasRunStart := by
  have hc := h.two_le
  have hnext := (ordered_iff_depth s).1 h.ordered index
  rw [depth_eq_zero_iff.2 hv] at hnext
  refine hasRunStart_of_depth (by rw [capacity_set]; omega) (i := index + 1) ?_
  rwa [depth_set_of_ne s (mod_ne_add_mod index Nat.one_pos hc)]

end InHand

/-- What placing `carried` leaves of a ring that held `before`. -/
structure Placed (before : Multiset (Slot α)) (carried : Slot α) (s : Slots α) : Prop where
  /-- The ring is in order. -/
  ordered : s.Ordered
  /-- A run starts somewhere, also if no slot is vacant any more. -/
  hasRunStart : s.HasRunStart
  /-- The newcomer is added and nothing is lost. -/
  contents : s.contents = carried ::ₘ before

/-- The walk with an entry in hand ends with all entries placed. -/
theorem placeFrom_spec {s : Slots α} {carried : Slot α} {index k left : ℕ}
    (h : InHand s carried index k) (hk : k < left) (settled : Option ℕ) :
    Placed s.contents carried (placeFrom left s carried index settled).1 ∧
      (placeFrom left s carried index settled).2.isSome := by
  induction left generalizing s carried index k settled with
  | zero => omega
  | succ left ih =>
    have hc := h.two_le
    rw [placeFrom]
    cases hr : s.get index with
    | none =>
      exact ⟨⟨h.ordered_set hr, h.hasRunStart_set hr,
        contents_set_of_get_none (by omega) hr carried⟩, rfl⟩
    | some resident =>
      obtain ⟨j, rfl⟩ := h.exists_succ hr
      dsimp only
      split
      · -- The resident is placed further on, in the ring that holds the entry in hand instead.
        rename_i hlt
        obtain ⟨hplaced, hsome⟩ := ih (h.swap hr hlt) (by omega) (some (settled.getD index))
        refine ⟨⟨hplaced.ordered, hplaced.hasRunStart, ?_⟩, hsome⟩
        rw [hplaced.contents, cons_contents_set (by omega) hr]
      · rename_i hle
        exact ih (h.pass hr (Nat.le_of_not_lt hle)) (by omega) settled

/-- Placing an entry in an ordered ring with a vacant slot succeeds, and keeps the order. -/
theorem place_spec {s : Slots α} (hc : 2 ≤ s.capacity) (ho : s.Ordered)
    (hroom : s.contents.card < s.capacity) (slot : Slot α) :
    ∃ t i, s.place slot = (t, some i) ∧ Placed s.contents slot t := by
  obtain ⟨k, hk, hv⟩ := (exists_get_eq_none_iff s (home slot.hash s.capacity)).2 hroom
  obtain ⟨hplaced, hsome⟩ := placeFrom_spec (InHand.start hc ho hk hv) hk none
  obtain ⟨i, hi⟩ := Option.isSome_iff_exists.1 hsome
  refine ⟨_, i % (placeFrom s.capacity s slot (home slot.hash s.capacity) none).1.capacity, ?_,
    hplaced⟩
  unfold place
  simp [hi]

end Slots

end OpenAddressing
