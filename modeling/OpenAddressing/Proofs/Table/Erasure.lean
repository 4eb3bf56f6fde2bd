import Mathlib.Data.Nat.ModEq
import Mathlib.Order.Bounds.Basic
import OpenAddressing.Proofs.Table.Reachable

/-!
# What taking an entry out moves, slot by slot

Closing a gap is described by `Slots.MovedBack`: the `m` slots after it hold what moves back. In
terms of entries that leaves no choice. The number `m` is the least at which the next slot starts a
run or the round is over (`Slots.MovedBack.isLeast`), what moves goes back by one slot and is
displaced by one less (`Slots.MovedBack.exists_moved`), the last slot emptied is the only one that
becomes vacant (`Slots.MovedBack.get_eq_none_iff`), and the round from the gap loses the entry taken
out and nothing of its order (`Slots.MovedBack.stretch_round`).

`ErasesExactly` puts this together for a table, and `erasesExactly_of_reachable` says that it holds
wherever an entry is taken out of a table that comes about. In a full table all the others move when
none of them is at its home bucket.
-/

namespace OpenAddressing

universe u

/-! ## On the ring -/

namespace Slots

variable {α : Type u} {s t : Slots α}

/-- No run goes on into the slot at `index`: it is vacant or holds an entry at its home bucket. -/
def StartsRun (s : Slots α) (index : ℕ) : Prop :=
  s.get index = none ∨ ∃ slot, s.get index = some slot ∧ s.displacementAt index slot = 0

/-- These are the slots of depth at most one. -/
theorem startsRun_iff_depth {i : ℕ} : s.StartsRun i ↔ s.depth i ≤ 1 := by
  unfold StartsRun depth displacementAt
  cases s.get i <;> simp [depthIn]

namespace MovedBack

variable {gap m : ℕ} {slot : Slot α}

/-- What moves are the entries before the first slot that starts a run, or all others if no slot
does before the gap comes round again. -/
theorem isLeast (h : MovedBack s t gap m)
    (hstop : m + 1 = s.capacity ∨ s.depth (gap + 1 + m) ≤ 1) :
    IsLeast {n | n + 1 = s.capacity ∨ s.StartsRun (gap + 1 + n)} m := by
  have hlt := h.lt
  constructor
  · exact hstop.imp_right startsRun_iff_depth.2
  · intro n hn
    by_contra hnm
    -- With fewer, what lies after them moves too, so it is away from its home bucket.
    have haway := h.away n (Nat.lt_of_not_le hnm)
    rcases hn with hall | hstart
    · omega
    · have hdepth := startsRun_iff_depth.1 hstart
      omega

/-- An entry that moves goes back by one slot and is displaced by one less. -/
theorem exists_moved (h : MovedBack s t gap m) {j : ℕ} (hj : j < m) :
    ∃ x, s.get (gap + 1 + j) = some x ∧ t.get (gap + j) = some x ∧
      t.displacementAt (gap + j) x + 1 = s.displacementAt (gap + 1 + j) x := by
  have haway := h.away j hj
  obtain ⟨x, hx, hdepth⟩ := exists_get_of_depth_pos (show 0 < s.depth (gap + 1 + j) by omega)
  have hmoved : t.get (gap + j) = some x := (h.moved j hj).trans hx
  have hfall := h.depth_moved hj
  rw [depth_of_get hmoved, hdepth] at hfall
  exact ⟨x, hx, hmoved, Nat.add_right_cancel hfall⟩

/-- The slots from the gap to the one emptied were taken, if the gap was. -/
theorem get_ne_none (h : MovedBack s t gap m) (hgap : s.get gap = some slot) {j : ℕ}
    (hj : j ≤ m) : s.get (gap + j) ≠ none := by
  cases j with
  | zero =>
    rw [Nat.add_zero, hgap]
    exact Option.some_ne_none slot
  | succ j =>
    obtain ⟨x, hx, -⟩ := h.exists_moved hj
    rw [show gap + (j + 1) = gap + 1 + j by omega, hx]
    exact Option.some_ne_none x

/-- The last of them becomes vacant, and no other slot. -/
theorem get_eq_none_iff (h : MovedBack s t gap m) (hgap : s.get gap = some slot) (i : ℕ) :
    t.get i = none ↔ s.get i = none ∨ i % s.capacity = (gap + m) % s.capacity := by
  obtain ⟨j, hj, hmod⟩ := exists_add_mod_eq (Nat.zero_lt_of_lt h.lt) gap i
  have ht : (gap + j) % t.capacity = i % t.capacity := by rw [h.capacity, hmod]
  have hplace : (gap + j) % s.capacity = (gap + m) % s.capacity → j = m := fun hsame =>
    (Nat.ModEq.add_left_cancel' gap hsame).eq_of_lt_of_lt hj h.lt
  rw [← hmod, ← get_congr s hmod, ← get_congr t ht]
  -- Counted from the gap: the slots refilled, the one emptied, and the ones beyond.
  rcases Nat.lt_trichotomy j m with hbefore | rfl | hafter
  · obtain ⟨x, -, hx, -⟩ := h.exists_moved hbefore
    rw [hx]
    refine iff_of_false (Option.some_ne_none x) ?_
    rintro (hnone | hsame)
    · exact h.get_ne_none hgap hbefore.le hnone
    · exact hbefore.ne (hplace hsame)
  · exact iff_of_true h.vacated (Or.inr rfl)
  · rw [h.kept j hafter hj, or_iff_left fun hsame => hafter.ne' (hplace hsame)]

/-- The round from the gap loses its first entry and keeps the order of the others. -/
theorem stretch_round (h : MovedBack s t gap m) (hgap : s.get gap = some slot) :
    s.stretch gap s.capacity = slot :: t.stretch gap t.capacity := by
  have hlt := h.lt
  obtain ⟨n, hn⟩ := Nat.exists_eq_add_one_of_ne_zero (Nat.ne_zero_of_lt hlt)
  calc s.stretch gap s.capacity = s.stretch gap (n + 1) := by rw [hn]
    _ = slot :: s.stretch (gap + 1) n := stretch_of_get_some hgap n
    _ = slot :: t.stretch gap (n + 1) := by
        rw [stretch_of_movedBack h (show m ≤ n by omega) (by omega)]
    _ = slot :: t.stretch gap t.capacity := by rw [h.capacity, hn]

end MovedBack

end Slots

/-! ## On tables -/

namespace Table

variable {α : Type u} {t : Table α}

/-- Taking `slot` out of the slot at `index` of `t` leaves `u`, where what the `m` slots after it
held has moved back. -/
structure ErasesExactly (t : Table α) (index : ℕ) (slot : Slot α) (m : ℕ) (u : Table α) :
    Prop where
  /-- The entry taken out is answered. -/
  eraseAt_eq : t.eraseAt index = (some slot, u)
  /-- No slot is added or dropped. -/
  capacity_eq : u.capacity = t.capacity
  /-- What moves ends before the first slot that is vacant or holds an entry at its home bucket, and
  is all the rest if there is no such slot before `index` comes round again. -/
  isLeast : IsLeast {n | n + 1 = t.capacity ∨ t.slots.StartsRun (index + 1 + n)} m
  /-- What moves goes back by one slot and is displaced by one less. -/
  moved : ∀ j < m, ∃ x, t.slots.get (index + 1 + j) = some x ∧ u.slots.get (index + j) = some x ∧
    u.slots.displacementAt (index + j) x + 1 = t.slots.displacementAt (index + 1 + j) x
  /-- Every other slot holds what it held. -/
  kept : ∀ j, m < j → j < t.capacity → u.slots.get (index + j) = t.slots.get (index + j)
  /-- The slot that what moves ends in was taken. -/
  taken : t.slots.get (index + m) ≠ none
  /-- It becomes vacant, and no other slot. -/
  vacant_iff : ∀ i, u.slots.get i = none ↔
    t.slots.get i = none ∨ i % t.capacity = (index + m) % t.capacity
  /-- Round the ring from `index` on, what followed the entry taken out follows in the same order. -/
  order : t.slots.stretch index t.capacity = slot :: u.slots.stretch index u.capacity
  /-- The table is in robin-hood order, a run starts somewhere, and the size counts the entries. -/
  wellFormed : u.WellFormed

/-- Wherever an entry lies in a table that comes about, completely full ones included, it is taken
out exactly. -/
theorem erasesExactly_of_reachable (h : t.Reachable) {index : ℕ} {slot : Slot α}
    (hget : t.slots.get index = some slot) : ∃ m u, t.ErasesExactly index slot m u := by
  have hw := h.wellFormed
  obtain ⟨u, herase, hwu, hslots, -⟩ := hw.eraseAt hget
  obtain ⟨m, hmoved, hstop⟩ := Slots.erase_spec hw.capacity_pos index
  rw [← hslots] at hmoved
  refine ⟨m, u, ?_⟩
  constructor
  case eraseAt_eq => exact herase
  case capacity_eq => exact hmoved.capacity
  case isLeast => exact hmoved.isLeast hstop
  case moved => exact fun j hj => hmoved.exists_moved hj
  case kept => exact hmoved.kept
  case taken => exact hmoved.get_ne_none hget (Nat.le_refl m)
  case vacant_iff => exact hmoved.get_eq_none_iff hget
  case order => exact hmoved.stretch_round hget
  case wellFormed => exact hwu

/-- A full table in which only the entry taken out is at its home bucket, so that all others move,
over the end of the ring; and eight slots where two move over the end, up to an entry at its home
bucket. -/
theorem erasesExactly_of_lone_start : ∃ t u : Table ℕ, t.Reachable ∧ t.size = t.capacity ∧
    t.slots.cells.toList.map (·.map Slot.item) = [some 11, some 12, some 13, some 10] ∧
    (t.eraseAt 3).2.slots.cells.toList.map (·.map Slot.item) = [some 12, some 13, none, some 11] ∧
    (∃ m v, t.ErasesExactly 3 ⟨3, 10⟩ m v) ∧ u.Reachable ∧
    u.slots.cells.toList.map (·.map Slot.item)
      = [some 12, some 13, none, none, none, none, some 10, some 11] ∧
    (u.eraseAt 6).2.slots.cells.toList.map (·.map Slot.item)
      = [none, some 13, none, none, none, none, some 11, some 12] ∧
    ∃ m v, u.ErasesExactly 6 ⟨6, 10⟩ m v := by
  have ht : ([10, 11, 12, 13].foldl (fun t n =>
      (t.insert (fun _ => true) .disabled 3 n (· == n)).state) (empty : Table ℕ)).Reachable :=
    .step (.step (.step (.step .empty (.insert _ _ _ 3 _ _)) (.insert _ _ _ 3 _ _))
      (.insert _ _ _ 3 _ _)) (.insert _ _ _ 3 _ _)
  have hu : ([(6, 10), (6, 11), (6, 12), (1, 13)].foldl (fun t p =>
      (t.insert (fun _ => true) .growOnly p.1 p.2 (· == p.2)).state)
      ((empty : Table ℕ).reserve (fun _ => true) 5).state).Reachable :=
    .step (.step (.step (.step (.step .empty (.reserve _ _ 5)) (.insert _ _ _ 6 _ _))
      (.insert _ _ _ 6 _ _)) (.insert _ _ _ 6 _ _)) (.insert _ _ _ 1 _ _)
  exact ⟨_, _, ht, by decide, by decide, by decide +kernel,
    erasesExactly_of_reachable ht (by decide), hu, by decide +kernel, by decide +kernel,
    erasesExactly_of_reachable hu (by decide +kernel)⟩

end Table

end OpenAddressing
