import OpenAddressing.Proofs.Slots.Placement
import OpenAddressing.Table.Resize
import OpenAddressing.Table.WellFormed

/-!
# A rehash keeps the entries

A well-formed table with a vacant slot takes one more entry (`WellFormed.place`), so a table with
room for a list of entries takes them all (`refill_spec`). A rehash asks for more slots than there
are entries before it begins, and therefore never fails once it has begun: `resizeTo_cases` lists
its four outcomes, of which only the last touches the table.

The numbers of slots that growth, shrinking and reservation ask for are powers of two, so each of
these keeps the table well formed and its contents, whether it succeeds or not.
-/

namespace OpenAddressing

universe u

namespace Table

variable {α : Type u}

/-- The entries of a table, in no order. -/
def contents (t : Table α) : Multiset (Slot α) := t.slots.contents

@[simp] theorem contents_vacant (n : ℕ) : (vacant n : Table α).contents = 0 :=
  Slots.contents_vacant n

/-- The contents are the entries with their order forgotten. -/
theorem coe_entries (t : Table α) : (t.entries : Multiset (Slot α)) = t.contents := rfl

/-- A new table is empty. -/
theorem contents_withCapacity {available : Allocator} {n : ℕ} {t : Table α}
    (h : withCapacity available n = .ok t) : t.contents = 0 := by
  unfold withCapacity at h
  split at h
  · cases h
  · split at h
    · obtain rfl := Except.ok.inj h
      exact contents_vacant _
    · cases h

namespace WellFormed

variable {t : Table α}

/-- The size is the number of entries. -/
theorem size_eq_card (hw : t.WellFormed) : t.size = t.contents.card := hw.size_eq

/-- There are at least two slots. -/
theorem two_le (hw : t.WellFormed) : 2 ≤ t.slots.capacity := by
  have hmin : minCapacity ≤ t.slots.capacity := hw.minCapacity_le
  unfold minCapacity at hmin
  omega

/-- There is a slot. -/
theorem capacity_pos (hw : t.WellFormed) : 0 < t.slots.capacity := by
  have htwo := hw.two_le
  omega

/-- There are no more entries than slots. -/
theorem size_le (hw : t.WellFormed) : t.size ≤ t.capacity := by
  rw [hw.size_eq]
  exact Slots.length_entries_le t.slots

/-- A ring of as many slots that is in order and has the start of a run makes a well-formed table
with the number of its entries for a size. -/
theorem of_capacity_eq (hw : t.WellFormed) {s : Slots α} {n : ℕ} {b : Bool}
    (hcap : s.capacity = t.capacity) (hsize : n = s.contents.card) (hordered : s.Ordered)
    (hstart : s.HasRunStart) : (⟨s, n, b⟩ : Table α).WellFormed := by
  refine ⟨?_, ?_, hsize, hordered, hstart⟩
  · show s.capacity.isPowerOfTwo
    rw [hcap]
    exact hw.capacity_eq
  · show minCapacity ≤ s.capacity
    rw [hcap]
    exact hw.minCapacity_le

/-- Well-formedness says nothing about the mark of a rehash under way. -/
theorem with_resizing (hw : t.WellFormed) (b : Bool) :
    ({ t with resizing := b } : Table α).WellFormed :=
  hw.of_capacity_eq rfl hw.size_eq hw.ordered hw.hasRunStart

/-- A well-formed table with a vacant slot takes one more entry. -/
theorem place (hw : t.WellFormed) (hroom : t.size < t.capacity) (slot : Slot α) :
    ∃ s i, t.slots.place slot = (s, some i) ∧ s.capacity = t.capacity ∧
      ∀ b, (⟨s, t.size + 1, b⟩ : Table α).WellFormed ∧
        (⟨s, t.size + 1, b⟩ : Table α).contents = slot ::ₘ t.contents := by
  have hcard : t.slots.contents.card < t.slots.capacity := by
    rw [Slots.card_contents]
    exact hw.size_eq ▸ hroom
  obtain ⟨s, i, hplace, hplaced⟩ := Slots.place_spec hw.two_le hw.ordered hcard slot
  have hcap : s.capacity = t.capacity := by
    rw [← show (t.slots.place slot).1 = s by rw [hplace], Slots.capacity_place]
    rfl
  have hsize : t.size + 1 = s.contents.card := by
    rw [hplaced.contents, Multiset.card_cons, hw.size_eq_card]
    rfl
  refine ⟨s, i, hplace, hcap, fun b => ⟨?_, hplaced.contents⟩⟩
  exact hw.of_capacity_eq hcap hsize hplaced.ordered hplaced.hasRunStart

end WellFormed

/-! ## Placing several entries -/

/-- A well-formed table with room for further entries takes them all. -/
theorem refill_spec {t : Table α} (hw : t.WellFormed) {rest : List (Slot α)}
    (hroom : t.size + rest.length ≤ t.capacity) :
    (refill t rest).answer = .ok () ∧ (refill t rest).state.WellFormed ∧
      (refill t rest).state.contents = t.contents + rest := by
  induction rest generalizing t with
  | nil => exact ⟨rfl, hw, by simp [refill]⟩
  | cons slot rest ih =>
    rw [List.length_cons] at hroom
    obtain ⟨s, i, hplace, hcap, hplaced⟩ := hw.place (by omega) slot
    obtain ⟨hw', hcont⟩ := hplaced t.resizing
    have hroom' : t.size + 1 + rest.length ≤ s.capacity := by omega
    obtain ⟨hok, hwf, hall⟩ := ih hw' hroom'
    have hstep : refill t (slot :: rest) = refill ⟨s, t.size + 1, t.resizing⟩ rest := by
      rw [refill, hplace]
    rw [hstep]
    refine ⟨hok, hwf, ?_⟩
    rw [hall, hcont, ← Multiset.cons_coe, Multiset.cons_add, Multiset.add_cons]

/-! ## A rehash -/

/-- A rehash into a power of two of slots does nothing if there are as many already, is refused if
they would be too few, or if they cannot be obtained, and otherwise succeeds with the entries it had
and all others left alone. -/
theorem resizeTo_cases {t : Table α} (hw : t.WellFormed) (available : Allocator) {capacity : ℕ}
    (hpow : capacity.isPowerOfTwo) :
    capacity = t.capacity ∧ t.resizeTo available capacity = ⟨.ok (), t⟩ ∨
    (capacity ≠ t.capacity ∧ (capacity < minCapacity ∨ capacity ≤ t.size) ∧
      t.resizeTo available capacity = ⟨.error (.capacity capacity), t⟩) ∨
    (capacity ≠ t.capacity ∧ minCapacity ≤ capacity ∧ t.size < capacity ∧
      available capacity = false ∧ t.resizeTo available capacity
        = ⟨.error (.allocation capacity), { t with resizing := false }⟩) ∨
    (capacity ≠ t.capacity ∧ minCapacity ≤ capacity ∧ t.size < capacity ∧
      available capacity = true ∧ ∃ u, t.resizeTo available capacity = ⟨.ok (), u⟩ ∧
        u.WellFormed ∧ u.capacity = capacity ∧ u.contents = t.contents ∧ u.resizing = false) := by
  unfold resizeTo
  by_cases hsame : capacity = t.capacity
  · exact Or.inl ⟨hsame, by rw [if_pos hsame]⟩
  rw [if_neg hsame]
  by_cases hfew : capacity < minCapacity ∨ capacity ≤ t.size
  · exact Or.inr (Or.inl ⟨hsame, hfew, by rw [if_pos hfew]⟩)
  rw [if_neg hfew]
  push Not at hfew
  cases havail : available capacity with
  | false => exact Or.inr (Or.inr (Or.inl ⟨hsame, hfew.1, hfew.2, rfl, rfl⟩))
  | true =>
    refine Or.inr (Or.inr (Or.inr ⟨hsame, hfew.1, hfew.2, rfl, ?_⟩))
    -- The empty ring has more slots than there are entries to place.
    have hempty : (⟨Slots.vacant capacity, 0, true⟩ : Table α).WellFormed :=
      (wellFormed_vacant (α := α) hpow hfew.1).with_resizing true
    have hlen : t.entries.length = t.size := hw.size_eq.symm
    have hcap : (⟨Slots.vacant capacity, 0, true⟩ : Table α).capacity = capacity :=
      Slots.capacity_vacant _
    have hroom : 0 + t.entries.length
        ≤ (⟨Slots.vacant capacity, 0, true⟩ : Table α).capacity := by
      rw [hcap, hlen]
      omega
    obtain ⟨hok, hwf, hall⟩ := refill_spec hempty hroom
    refine ⟨{ (refill ⟨Slots.vacant capacity, 0, true⟩ t.entries).state with resizing := false },
      ?_, hwf.with_resizing false, ?_, ?_, rfl⟩
    · rw [if_pos rfl]
      dsimp only
      rw [hok]
    · exact (capacity_refill _ _).trans hcap
    · show (refill ⟨Slots.vacant capacity, 0, true⟩ t.entries).state.contents = t.contents
      rw [hall, coe_entries]
      show (Slots.vacant capacity).contents + t.contents = t.contents
      rw [Slots.contents_vacant, zero_add]

/-- What a change of the number of slots owes the table, whether it succeeds or not. -/
structure Rehash (t u : Table α) : Prop where
  /-- The table is well formed afterwards. -/
  wellFormed : u.WellFormed
  /-- No entry is added or lost. -/
  contents : u.contents = t.contents

namespace Rehash

variable {t u v : Table α}

/-- A table that is left alone is rehashed in effect. -/
theorem refl (hw : t.WellFormed) : Rehash t t := ⟨hw, rfl⟩

/-- One change after another. -/
theorem trans (h : Rehash t u) (h' : Rehash u v) : Rehash t v :=
  ⟨h'.wellFormed, h'.contents.trans h.contents⟩

/-- The size stays. -/
theorem size_eq (h : Rehash t u) (hw : t.WellFormed) : u.size = t.size := by
  rw [h.wellFormed.size_eq_card, h.contents, hw.size_eq_card]

end Rehash

/-- A rehash into a power of two of slots keeps the entries, whether it succeeds or not. -/
theorem rehash_resizeTo {t : Table α} (hw : t.WellFormed) (available : Allocator) {capacity : ℕ}
    (hpow : capacity.isPowerOfTwo) : Rehash t (t.resizeTo available capacity).state := by
  rcases resizeTo_cases hw available hpow with ⟨-, h⟩ | ⟨-, -, h⟩ | ⟨-, -, -, -, h⟩ |
    ⟨-, -, -, -, u, h, hwf, -, hcont, -⟩
  · rw [h]
    exact Rehash.refl hw
  · rw [h]
    exact Rehash.refl hw
  · rw [h]
    exact ⟨hw.with_resizing false, rfl⟩
  · rw [h]
    exact ⟨hwf, hcont⟩

/-! ## Growing, shrinking and reserving -/

/-- Going up to the fewest slots keeps a power of two. -/
theorem isPowerOfTwo_max_minCapacity {n : ℕ} (h : n.isPowerOfTwo) :
    (max n minCapacity).isPowerOfTwo := by
  rcases Nat.le_total n minCapacity with hle | hle
  · rw [Nat.max_eq_right hle]
    exact ⟨2, rfl⟩
  · rw [Nat.max_eq_left hle]
    exact h

/-- Halving a power of two without going below the fewest slots leaves a power of two. -/
theorem isPowerOfTwo_half {n : ℕ} (h : n.isPowerOfTwo) :
    (max (n / 2) minCapacity).isPowerOfTwo := by
  obtain ⟨k, rfl⟩ := h
  cases k with
  | zero => exact ⟨2, rfl⟩
  | succ k =>
    apply isPowerOfTwo_max_minCapacity
    rw [Nat.pow_succ, Nat.mul_div_cancel _ (by decide)]
    exact ⟨k, rfl⟩

/-- The slots that fit a number of entries are a power of two. -/
theorem isPowerOfTwo_fittingCapacity {count capacity : ℕ}
    (h : fittingCapacity? count = some capacity) : capacity.isPowerOfTwo := by
  unfold fittingCapacity? at h
  split at h
  · cases h
  · obtain ⟨c, hc, rfl⟩ := Option.map_eq_some_iff.1 h
    unfold Count.ceilPowerOfTwo? at hc
    split at hc
    · obtain rfl := Option.some.inj hc
      exact isPowerOfTwo_max_minCapacity (Count.isPowerOfTwo_ceilPowerOfTwo _)
    · cases hc

/-- Doubling or halving the slots keeps the entries, whether it succeeds or not. -/
theorem rehash_resize {t : Table α} (hw : t.WellFormed) (available : Allocator)
    (adjustment : Adjustment) : Rehash t (t.resize available adjustment).state := by
  cases adjustment with
  | grow =>
    rw [resize]
    cases hdouble : Count.mul? t.capacity 2 with
    | none => exact Rehash.refl hw
    | some capacity =>
      obtain ⟨-, rfl⟩ := Count.mul?_eq_some_iff.1 hdouble
      exact rehash_resizeTo hw available
        (Nat.isPowerOfTwo_mul_two_of_isPowerOfTwo hw.capacity_eq)
  | shrink => exact rehash_resizeTo hw available (isPowerOfTwo_half hw.capacity_eq)
  | keep => exact Rehash.refl hw

/-- Reserving goes up to the slots that fit, if they are more, and fails when they cannot be
obtained or are no count. -/
theorem reserve_cases {t : Table α} (hw : t.WellFormed) (available : Allocator) (additional : ℕ) :
    ((Count.add? t.size additional).bind fittingCapacity? = none ∧
      t.reserve available additional = ⟨.error (.allocation Count.largest), t⟩) ∨
    ∃ n, (Count.add? t.size additional).bind fittingCapacity? = some n ∧
      ((t.capacity < n ∧ available n = false ∧ t.reserve available additional
          = ⟨.error (.allocation n), { t with resizing := false }⟩) ∨
        ((t.capacity < n → available n = true) ∧ ∃ u,
          t.reserve available additional = ⟨.ok (), u⟩ ∧ Rehash t u ∧
            u.capacity = max t.capacity n)) := by
  unfold reserve
  cases hfit : (Count.add? t.size additional).bind fittingCapacity? with
  | none => exact Or.inl ⟨rfl, rfl⟩
  | some n =>
    refine Or.inr ⟨n, rfl, ?_⟩
    obtain ⟨count, -, hcount⟩ := Option.bind_eq_some_iff.1 hfit
    have hsize := hw.size_le
    have hmin := hw.minCapacity_le
    by_cases hmore : t.capacity < n
    · simp only [if_pos hmore]
      -- More slots than there are hold all entries.
      rcases resizeTo_cases hw available (isPowerOfTwo_fittingCapacity hcount) with ⟨hsame, -⟩ |
        ⟨-, hfew, -⟩ | ⟨-, -, -, hno, h⟩ | ⟨-, -, -, hyes, u, h, hwu, hcap, hcont, -⟩
      · omega
      · omega
      · exact Or.inl ⟨hmore, hno, h⟩
      · exact Or.inr ⟨fun _ => hyes, u, h, ⟨hwu, hcont⟩, by omega⟩
    · simp only [if_neg hmore]
      exact Or.inr ⟨fun h => absurd h hmore, t, rfl, Rehash.refl hw, by omega⟩

/-- Reserving keeps the entries, whether it succeeds or not. -/
theorem rehash_reserve {t : Table α} (hw : t.WellFormed) (available : Allocator)
    (additional : ℕ) : Rehash t (t.reserve available additional).state := by
  rcases reserve_cases hw available additional with ⟨-, h⟩ | ⟨n, -, ⟨-, -, h⟩ | ⟨-, u, h, hre, -⟩⟩
  · rw [h]
    exact Rehash.refl hw
  · rw [h]
    exact ⟨hw.with_resizing false, rfl⟩
  · rw [h]
    exact hre

/-- Shrinking to fit keeps the entries. -/
theorem rehash_shrinkToFit {t : Table α} (hw : t.WellFormed) (available : Allocator) :
    Rehash t (t.shrinkToFit available) := by
  unfold shrinkToFit
  split
  · exact Rehash.refl hw
  · rename_i capacity hfit
    split
    · exact rehash_resizeTo hw available (isPowerOfTwo_fittingCapacity hfit)
    · exact Rehash.refl hw

end Table

end OpenAddressing
