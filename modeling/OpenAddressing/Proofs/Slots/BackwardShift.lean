import OpenAddressing.Proofs.Slots.Contents
import OpenAddressing.Slots.BackwardShift

/-!
# Closing a gap keeps the order

Taking the entry out of a slot moves the entries after it back by one slot each, up to the first
slot of depth at most one, or all others if there is no such slot. `MovedBack` says which slots hold
what afterwards, and `erase_spec` that `erase` does that and stops there. What becomes of the order,
of the contents and of a walk over the ring follows from this description: each depth that moves
falls by one, so the entry moved into the gap exceeds the depth before it by no more than the one
taken out did.

If only the entry taken out started a run, all the others move. Then the first of them had depth
two, since the depth rises by at most one, and it starts a run afterwards
(`MovedBack.depth_gap_le_one`).
-/

namespace OpenAddressing

universe u

namespace Slots

variable {α : Type u}

/-- `t` is `s` without what the slot at `gap` held, and with what the `m` slots after it hold moved
back by one slot each. -/
structure MovedBack (s t : Slots α) (gap m : ℕ) : Prop where
  /-- No slot is added or dropped. -/
  capacity : t.capacity = s.capacity
  /-- Not all slots move. -/
  lt : m < s.capacity
  /-- A slot that is refilled holds what the next one held. -/
  moved : ∀ j < m, t.get (gap + j) = s.get (gap + 1 + j)
  /-- What moves has been away from its home bucket. -/
  away : ∀ j < m, 2 ≤ s.depth (gap + 1 + j)
  /-- The slot after the refilled ones is vacant. -/
  vacated : t.get (gap + m) = none
  /-- The slots beyond it are left alone. -/
  kept : ∀ j, m < j → j < s.capacity → t.get (gap + j) = s.get (gap + j)

/-! ## What the loop does -/

/-- Nothing moves back into a slot that stays vacant. -/
theorem MovedBack.refl {s : Slots α} {gap : ℕ} (hc : 0 < s.capacity) (h : s.get gap = none) :
    MovedBack s s gap 0 :=
  ⟨rfl, hc, by omega, by omega, h, fun _ _ _ => rfl⟩

/-- The ring after one turn of the loop, which moves `slot` from the slot after `gap` into it. -/
def shiftOne (s : Slots α) (gap : ℕ) (slot : Slot α) : Slots α :=
  (s.set gap (some slot)).set (gap + 1) none

section ShiftOne

variable {s : Slots α} {gap : ℕ} {slot : Slot α}

theorem capacity_shiftOne : (s.shiftOne gap slot).capacity = s.capacity := by
  rw [shiftOne, capacity_set, capacity_set]

/-- One turn fills the gap. -/
theorem get_shiftOne_self (hc : 2 ≤ s.capacity) : (s.shiftOne gap slot).get gap = some slot := by
  have hne : (gap + 1) % (s.set gap (some slot)).capacity
      ≠ gap % (s.set gap (some slot)).capacity := by
    rw [capacity_set]
    exact (mod_ne_add_mod gap Nat.one_pos hc).symm
  rw [shiftOne, get_set_of_ne _ hne, get_set_self s (by omega)]

/-- One turn makes the slot after it the gap. -/
theorem get_shiftOne_succ (hc : 0 < s.capacity) :
    (s.shiftOne gap slot).get (gap + 1) = none := by
  rw [shiftOne, get_set_self _ (by rwa [capacity_set])]

/-- One turn leaves the other slots alone. -/
theorem get_shiftOne_of_lt {j : ℕ} (h1 : 1 < j) (hj : j < s.capacity) :
    (s.shiftOne gap slot).get (gap + j) = s.get (gap + j) := by
  have hne : (gap + 1) % (s.set gap (some slot)).capacity
      ≠ (gap + j) % (s.set gap (some slot)).capacity := by
    rw [capacity_set, show gap + j = gap + 1 + (j - 1) by omega]
    exact mod_ne_add_mod (gap + 1) (by omega) (by omega)
  rw [shiftOne, get_set_of_ne _ hne, get_set_of_ne s (mod_ne_add_mod gap (by omega) hj)]

/-- One turn leaves the depths of the other slots alone. -/
theorem depth_shiftOne_of_lt {j : ℕ} (h1 : 1 < j) (hj : j < s.capacity) :
    (s.shiftOne gap slot).depth (gap + j) = s.depth (gap + j) := by
  unfold depth
  rw [get_shiftOne_of_lt h1 hj, capacity_shiftOne]

/-- One turn and then moving `m` slots back is moving one more. -/
theorem MovedBack.of_shiftOne {t : Slots α} {m : ℕ} (hnext : s.get (gap + 1) = some slot)
    (haway : 2 ≤ s.depth (gap + 1)) (hm : m + 1 < s.capacity)
    (h : MovedBack (s.shiftOne gap slot) t (gap + 1) m) : MovedBack s t gap (m + 1) := by
  have hcap : (s.shiftOne gap slot).capacity = s.capacity := capacity_shiftOne
  refine ⟨by rw [h.capacity, hcap], hm, ?_, ?_, ?_, ?_⟩
  · intro j hj
    cases j with
    | zero =>
      -- Counted from the loop's next gap, the slot refilled is the last one of the round.
      have hround := h.kept (s.capacity - 1) (by omega) (by omega)
      rw [show gap + 1 + (s.capacity - 1) = gap + s.capacity by omega] at hround
      have hold : (s.shiftOne gap slot).get (gap + s.capacity) = some slot := by
        rw [← hcap, get_add_capacity, get_shiftOne_self (by omega)]
      have hnew : t.get (gap + s.capacity) = t.get gap := by
        rw [← hcap, ← h.capacity, get_add_capacity]
      rw [Nat.add_zero, Nat.add_zero, hnext, ← hold, ← hround, hnew]
    | succ j =>
      have hmoved := h.moved j (by omega)
      rwa [show gap + 1 + 1 + j = gap + (j + 2) by omega,
        get_shiftOne_of_lt (by omega) (by omega), show gap + 1 + j = gap + (j + 1) by omega,
        show gap + (j + 2) = gap + 1 + (j + 1) by omega] at hmoved
  · intro j hj
    cases j with
    | zero => exact haway
    | succ j =>
      have haway' := h.away j (by omega)
      rwa [show gap + 1 + 1 + j = gap + (j + 2) by omega,
        depth_shiftOne_of_lt (by omega) (by omega),
        show gap + (j + 2) = gap + 1 + (j + 1) by omega] at haway'
  · rw [show gap + (m + 1) = gap + 1 + m by omega]
    exact h.vacated
  · intro j hmj hj
    have hkept := h.kept (j - 1) (by omega) (by omega)
    rwa [show gap + 1 + (j - 1) = gap + j by omega, get_shiftOne_of_lt (by omega) hj] at hkept

end ShiftOne

/-- The loop from a vacant slot moves entries back until the next slot has depth at most one or it
has moved `left` of them. -/
theorem shiftBack_spec {s : Slots α} {gap left : ℕ} (hleft : left < s.capacity)
    (hgap : s.get gap = none) :
    ∃ m ≤ left, MovedBack s (shiftBack left s gap) gap m ∧
      (m = left ∨ s.depth (gap + 1 + m) ≤ 1) := by
  have hstay : MovedBack s s gap 0 := MovedBack.refl (by omega) hgap
  induction left generalizing s gap with
  | zero => exact ⟨0, Nat.le_refl 0, hstay, Or.inl rfl⟩
  | succ left ih =>
    rw [shiftBack]
    cases hnext : s.get (gap + 1) with
    | none =>
      have hzero : s.depth (gap + 1 + 0) = 0 := depth_eq_zero_iff.2 hnext
      exact ⟨0, Nat.zero_le _, hstay, Or.inr (by omega)⟩
    | some slot =>
      have hdepth := depth_of_get hnext
      unfold displacementAt at hdepth
      dsimp only
      split
      · rename_i hpos
        have hvac : (s.shiftOne gap slot).get (gap + 1) = none := get_shiftOne_succ (by omega)
        have hcap : (s.shiftOne gap slot).capacity = s.capacity := capacity_shiftOne
        obtain ⟨m, hm, hmoved, hstop⟩ :=
          ih (by omega) hvac (MovedBack.refl (by omega) hvac)
        refine ⟨m + 1, by omega, hmoved.of_shiftOne hnext (by omega) (by omega), ?_⟩
        rcases hstop with rfl | hstop
        · exact Or.inl rfl
        · rcases Nat.lt_or_ge (m + 2) s.capacity with hlt | hge
          · rw [show gap + 1 + 1 + m = gap + (m + 2) by omega,
              depth_shiftOne_of_lt (by omega) hlt,
              show gap + (m + 2) = gap + 1 + (m + 1) by omega] at hstop
            exact Or.inr hstop
          · exact Or.inl (by omega)
      · exact ⟨0, Nat.zero_le _, hstay, Or.inr (by rw [Nat.add_zero]; omega)⟩

/-- The loop loses no entry. -/
theorem contents_shiftBack {s : Slots α} {gap : ℕ} (left : ℕ) (hc : 2 ≤ s.capacity)
    (hgap : s.get gap = none) : (shiftBack left s gap).contents = s.contents := by
  induction left generalizing s gap with
  | zero => rfl
  | succ left ih =>
    rw [shiftBack]
    cases hnext : s.get (gap + 1) with
    | none => rfl
    | some slot =>
      dsimp only
      split
      · -- One turn writes the entry into the gap and then empties the slot it came from.
        have hstill : (s.set gap (some slot)).get (gap + 1) = some slot := by
          rw [get_set_of_ne s (mod_ne_add_mod gap Nat.one_pos hc), hnext]
        have hfill := contents_set_of_get_none (by omega) hgap slot
        have hempty := cons_contents_set_none (s := s.set gap (some slot)) (by simp; omega) hstill
        rw [ih (by simpa using hc) (get_set_self _ (by simp; omega) _ _)]
        rw [hfill] at hempty
        exact (Multiset.cons_inj_right slot).1 hempty
      · rfl

/-! ## What taking an entry out does -/

/-- Taking an entry out moves the entries after it back, up to the first slot of depth at most one,
or all of them if there is none. -/
theorem erase_spec {s : Slots α} (hc : 0 < s.capacity) (index : ℕ) :
    ∃ m, MovedBack s (s.erase index) index m ∧
      (m + 1 = s.capacity ∨ s.depth (index + 1 + m) ≤ 1) := by
  have hcap : (s.set index none).capacity = s.capacity := capacity_set ..
  have hget : ∀ j, 0 < j → j < s.capacity →
      (s.set index none).get (index + j) = s.get (index + j) := fun j h0 hj =>
    get_set_of_ne s (mod_ne_add_mod index h0 hj) none
  have hdep : ∀ j, 0 < j → j < s.capacity →
      (s.set index none).depth (index + j) = s.depth (index + j) := fun j h0 hj =>
    depth_set_of_ne s (mod_ne_add_mod index h0 hj) none
  obtain ⟨m, hm, hmoved, hstop⟩ := shiftBack_spec
    (show s.capacity - 1 < (s.set index none).capacity by omega) (get_set_self s hc index none)
  refine ⟨m, ⟨by rw [erase, hmoved.capacity, hcap], by omega, ?_, ?_, hmoved.vacated, ?_⟩, ?_⟩
  · intro j hj
    rw [erase, hmoved.moved j hj, Nat.add_assoc, hget (1 + j) (by omega) (by omega)]
  · intro j hj
    have haway := hmoved.away j hj
    rwa [Nat.add_assoc, hdep (1 + j) (by omega) (by omega), ← Nat.add_assoc] at haway
  · intro j hmj hj
    rw [erase, hmoved.kept j hmj (by omega), hget j (by omega) hj]
  · by_cases hlast : m + 1 = s.capacity
    · exact Or.inl hlast
    · rcases hstop with rfl | hstop
      · omega
      · rw [Nat.add_assoc, hdep (1 + m) (by omega) (by omega), ← Nat.add_assoc] at hstop
        exact Or.inr hstop

/-- Taking an entry out takes it from the contents and nothing else. -/
theorem cons_contents_erase {s : Slots α} (hc : 2 ≤ s.capacity) {index : ℕ} {slot : Slot α}
    (h : s.get index = some slot) : slot ::ₘ (s.erase index).contents = s.contents := by
  rw [erase, contents_shiftBack _ (by simpa using hc) (get_set_self s (by omega) _ _)]
  exact cons_contents_set_none (by omega) h

namespace MovedBack

variable {s t : Slots α} {gap m : ℕ}

/-- Each depth that moves falls by one. -/
theorem depth_moved (h : MovedBack s t gap m) {j : ℕ} (hj : j < m) :
    t.depth (gap + j) + 1 = s.depth (gap + 1 + j) := by
  have hc : 0 < s.capacity := by have := h.lt; omega
  have haway := h.away j hj
  obtain ⟨slot, hslot, hdepth⟩ := exists_get_of_depth_pos (show 0 < s.depth (gap + 1 + j) by omega)
  have hback : displacement slot.hash (gap + j) s.capacity + 1
      = displacement slot.hash (gap + j + 1) s.capacity := by
    refine displacement_of_succ_pos hc ?_
    rw [Nat.add_right_comm]
    unfold displacementAt at hdepth
    omega
  rw [depth_of_get ((h.moved j hj).trans hslot), hdepth]
  unfold displacementAt
  rw [h.capacity, hback, Nat.add_right_comm]

/-- The slot after the refilled ones has depth zero. -/
theorem depth_vacated (h : MovedBack s t gap m) : t.depth (gap + m) = 0 :=
  depth_eq_zero_iff.2 h.vacated

/-- The slots beyond keep their depth. -/
theorem depth_kept (h : MovedBack s t gap m) {j : ℕ} (hmj : m < j) (hj : j < s.capacity) :
    t.depth (gap + j) = s.depth (gap + j) := by
  unfold depth
  rw [h.kept j hmj hj, h.capacity]

/-- After a gap is closed some slot is vacant, so a run starts there. -/
theorem hasRunStart (h : MovedBack s t gap m) : t.HasRunStart := by
  have hlt := h.lt
  refine hasRunStart_of_depth (by rw [h.capacity]; omega) (i := gap + m) ?_
  rw [h.depth_vacated]
  exact Nat.zero_le 1

/-- The gap is left no deeper than the entry taken out. -/
theorem depth_gap_le (h : MovedBack s t gap m) (ho : s.Ordered) : t.depth gap ≤ s.depth gap := by
  have hnext := (ordered_iff_depth s).1 ho gap
  rcases Nat.eq_zero_or_pos m with rfl | hpos
  · have hvacated := h.depth_vacated
    rw [Nat.add_zero] at hvacated
    omega
  · have hmoved := h.depth_moved hpos
    simp only [Nat.add_zero] at hmoved
    omega

/-- If everything moves, a run starts at the gap: only the entry taken out had started one. -/
theorem depth_gap_le_one (h : MovedBack s t gap m) (ho : s.Ordered) (hs : s.HasRunStart)
    (hall : m + 1 = s.capacity) : t.depth gap ≤ 1 := by
  obtain ⟨r, hr, hdepth⟩ := (hasRunStart_iff_depth s).1 hs
  -- The start lies `k` slots on from the gap, and what moved was not one.
  obtain ⟨k, hk, hkr⟩ := exists_add_mod_eq (c := s.capacity) (by omega) gap r
  rw [← depth_congr s (by omega) hkr] at hdepth
  cases k with
  | zero => exact Nat.le_trans (h.depth_gap_le ho) hdepth
  | succ k =>
    have haway := h.away k (by omega)
    rw [show gap + 1 + k = gap + (k + 1) by omega] at haway
    omega

/-- After the last slot of the round comes the gap. -/
theorem depth_last_succ (h : MovedBack s t gap m) {k : ℕ} (hk : k + 1 = s.capacity) :
    t.depth (gap + k + 1) = t.depth gap := by
  have hct : 0 < t.capacity := by
    rw [h.capacity]
    omega
  rw [Nat.add_assoc, hk, ← h.capacity, depth_add_capacity t hct]

/-- The depth rises by at most one over the slots refilled, where all depths have fallen by one. -/
theorem depth_succ_le_of_lt (h : MovedBack s t gap m) (ho : s.Ordered) {k : ℕ} (hk : k < m) :
    t.depth (gap + k + 1) ≤ t.depth (gap + k) + 1 := by
  have hfall := h.depth_moved hk
  rcases Nat.lt_or_ge (k + 1) m with hlt | hge
  · have hfall' := h.depth_moved hlt
    have hrise := (ordered_iff_depth s).1 ho (gap + 1 + k)
    rw [Nat.add_assoc (gap + 1)] at hrise
    rw [Nat.add_assoc gap]
    omega
  · rw [show gap + k + 1 = gap + m by omega, h.depth_vacated]
    exact Nat.zero_le _

/-- The slot after the vacant one is the one that stopped the loop, or the gap. -/
theorem depth_succ_le_one (h : MovedBack s t gap m) (ho : s.Ordered) (hs : s.HasRunStart)
    (hstop : m + 1 = s.capacity ∨ s.depth (gap + 1 + m) ≤ 1) : t.depth (gap + m + 1) ≤ 1 := by
  have hm := h.lt
  rcases Nat.lt_or_ge (m + 1) s.capacity with hlt | hge
  · rw [Nat.add_assoc, h.depth_kept (by omega) hlt, ← Nat.add_assoc, Nat.add_right_comm]
    rcases hstop with hall | hdepth
    · omega
    · exact hdepth
  · have hall : m + 1 = s.capacity := by omega
    rw [h.depth_last_succ hall]
    exact h.depth_gap_le_one ho hs hall

/-- The depth rises by at most one over the slots beyond, and from the last of them to the gap. -/
theorem depth_succ_le_of_gt (h : MovedBack s t gap m) (ho : s.Ordered) {k : ℕ} (hmk : m < k)
    (hk : k < s.capacity) : t.depth (gap + k + 1) ≤ t.depth (gap + k) + 1 := by
  have hrise := (ordered_iff_depth s).1 ho (gap + k)
  rw [h.depth_kept hmk hk]
  rcases Nat.lt_or_ge (k + 1) s.capacity with hlt | hge
  · rw [Nat.add_assoc, h.depth_kept (by omega) hlt, ← Nat.add_assoc]
    exact hrise
  · have hround : s.depth (gap + k + 1) = s.depth gap := by
      rw [show gap + k + 1 = gap + s.capacity by omega, depth_add_capacity s (by omega)]
    rw [h.depth_last_succ (by omega)]
    have hle := h.depth_gap_le ho
    omega

/-- Closing a gap as far as the next slot of depth at most one keeps the order. -/
theorem ordered (h : MovedBack s t gap m) (ho : s.Ordered) (hs : s.HasRunStart)
    (hstop : m + 1 = s.capacity ∨ s.depth (gap + 1 + m) ≤ 1) : t.Ordered := by
  have hct : 0 < t.capacity := by
    rw [h.capacity]
    exact Nat.lt_of_le_of_lt (Nat.zero_le m) h.lt
  -- Counted from the gap: the slots refilled, the one vacated, and the ones beyond.
  refine ordered_of_round hct gap fun k hk => ?_
  rw [h.capacity] at hk
  rcases Nat.lt_trichotomy k m with hkm | rfl | hmk
  · exact h.depth_succ_le_of_lt ho hkm
  · rw [h.depth_vacated]
    exact h.depth_succ_le_one ho hs hstop
  · exact h.depth_succ_le_of_gt ho hmk hk

end MovedBack

/-- Taking an entry out keeps the order. -/
theorem Ordered.erase {s : Slots α} (ho : s.Ordered) (hc : 0 < s.capacity) (hs : s.HasRunStart)
    (index : ℕ) : (s.erase index).Ordered := by
  obtain ⟨m, hmoved, hstop⟩ := erase_spec hc index
  exact hmoved.ordered ho hs hstop

/-- Taking an entry out leaves a slot where a run starts. -/
theorem hasRunStart_erase {s : Slots α} (hc : 0 < s.capacity) (index : ℕ) :
    (s.erase index).HasRunStart := by
  obtain ⟨m, hmoved, -⟩ := erase_spec hc index
  exact hmoved.hasRunStart

end Slots

end OpenAddressing
