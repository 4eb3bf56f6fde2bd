import Mathlib.Data.Nat.Find
import Mathlib.Order.Bounds.Basic
import OpenAddressing.Proofs.Slots.Placement

/-!
# Where entries lie after a placement

A placement carries one entry after another along a stretch of the ring, from the home bucket of the
newcomer to the first vacant slot. `Landed` says what the walk makes of the slots one by one: those
past the stretch stay as they were, those of the stretch are all taken, and what lies there
afterwards is the entry in hand, at the place reported, or a resident that has moved on by as many
slots as its displacement has grown. It holds where the walk ends (`landed_set`), and a step back to
the slot before keeps it, whether the resident there stays (`Landed.pass`) or gives way
(`Landed.swap`). So it holds of the whole walk (`InHand.exists_landed`).

Together with the order and the contents (`placeFrom_spec`) this is all there is to say about a
placement: `placesExactly_of_ordered`.
-/

namespace OpenAddressing

universe u

namespace Slots

variable {α : Type u}

/-- What the walk with `carried` in hand at `index` makes of the ring `s`, when the slot `k` further
on is the first vacant one: it leaves `t`, where `carried` lies `place` slots on. -/
structure Landed (s : Slots α) (carried : Slot α) (index k place : ℕ) (t : Slots α) : Prop where
  /-- No slot is added or dropped. -/
  capacity_eq : t.capacity = s.capacity
  /-- The entry in hand comes to lie on the stretch. -/
  place_le : place ≤ k
  /-- It lies at its place. -/
  get_place : t.get (index + place) = some carried
  /-- Its displacement has grown by as many slots as it was carried. -/
  displacement_place : s.displacementAt (index + place) carried
    = s.displacementAt index carried + place
  /-- All slots of the stretch are taken. -/
  taken : ∀ j ≤ k, t.get (index + j) ≠ none
  /-- The slots past the stretch are as they were. -/
  kept : ∀ j, k < j → j < s.capacity → t.get (index + j) = s.get (index + j)
  /-- What lies on the stretch is the entry in hand, or was there before and has moved on by as many
  slots as its displacement has grown, which therefore has not come round to zero. -/
  moved : ∀ j ≤ k, ∀ x, t.get (index + j) = some x → (j = place ∧ x = carried) ∨
    ∃ i ≤ j, s.get (index + i) = some x ∧
      s.displacementAt (index + j) x = s.displacementAt (index + i) x + (j - i)

/-- The entry in hand is put into a vacant slot. -/
theorem landed_set {s : Slots α} {index : ℕ} (hc : 0 < s.capacity) (carried : Slot α) :
    Landed s carried index 0 0 (s.set index (some carried)) := by
  have hself : (s.set index (some carried)).get index = some carried := get_set_self s hc index _
  refine ⟨capacity_set .., Nat.le_refl 0, hself, rfl, fun j hj => ?_, fun j hpos hj => ?_,
    fun j hj x hx => ?_⟩
  · obtain rfl := Nat.le_zero.1 hj
    rw [Nat.add_zero, hself]
    exact Option.some_ne_none carried
  · exact get_set_of_ne s (mod_ne_add_mod index hpos hj) _
  · obtain rfl := Nat.le_zero.1 hj
    rw [Nat.add_zero, hself] at hx
    exact Or.inl ⟨rfl, (Option.some.inj hx).symm⟩

namespace Landed

variable {s t : Slots α} {carried resident : Slot α} {index k place : ℕ}

/-- A walk from the next slot on leaves this one as it was, if it ends before coming round. -/
theorem get_before (h : Landed s carried (index + 1) k place t)
    (hk : k + 1 < s.capacity) : t.get index = s.get index := by
  have hround : index + 1 + (s.capacity - 1) = index + s.capacity := by omega
  have hkept := h.kept (s.capacity - 1) (by omega) (by omega)
  rwa [hround, get_add_capacity, ← h.capacity_eq, get_add_capacity] at hkept

/-- With this slot the stretch from here on is taken. -/
theorem taken_of_get (h : Landed s carried (index + 1) k place t) {x : Slot α}
    (hx : t.get index = some x) : ∀ j ≤ k + 1, t.get (index + j) ≠ none := by
  rintro (_ | j) hj
  · rw [Nat.add_zero, hx]
    exact Option.some_ne_none x
  · rw [show index + (j + 1) = index + 1 + j by omega]
    exact h.taken j (Nat.le_of_succ_le_succ hj)

/-- A resident that stays is passed. -/
theorem pass (h : Landed s carried (index + 1) k place t) (hk : k + 1 < s.capacity)
    (hr : s.get index = some resident)
    (hsucc : s.displacementAt (index + 1) carried = s.displacementAt index carried + 1) :
    Landed s carried index (k + 1) (place + 1) t := by
  have hshift : ∀ j, index + (j + 1) = index + 1 + j := fun j => by omega
  have hhere : t.get index = some resident := (h.get_before hk).trans hr
  constructor
  case capacity_eq => exact h.capacity_eq
  case place_le => exact Nat.succ_le_succ h.place_le
  case get_place => rw [hshift, h.get_place]
  case displacement_place =>
    rw [hshift, h.displacement_place, hsucc]
    omega
  case taken => exact h.taken_of_get hhere
  case kept =>
    rintro (_ | j) hkj hj
    · omega
    · rw [hshift]
      exact h.kept j (Nat.lt_of_succ_lt_succ hkj) (by omega)
  case moved =>
    rintro (_ | j) hj x hx
    · -- The resident has not moved.
      rw [Nat.add_zero, hhere] at hx
      exact Or.inr ⟨0, Nat.le_refl 0, hr.trans hx, rfl⟩
    · rw [hshift] at hx ⊢
      rcases h.moved j (Nat.le_of_succ_le_succ hj) x hx with ⟨rfl, rfl⟩ | ⟨i, hi, hget, hgrown⟩
      · exact Or.inl ⟨rfl, rfl⟩
      · refine Or.inr ⟨i + 1, Nat.succ_le_succ hi, ?_, ?_⟩
        · rw [hshift, hget]
        · rw [hshift i, hgrown, Nat.add_sub_add_right]

/-- A resident that gives way is carried on from the next slot, in the ring that holds the entry in
hand instead. -/
theorem swap (h : Landed (s.set index (some carried)) resident (index + 1) k place t)
    (hk : k + 1 < s.capacity) (hr : s.get index = some resident)
    (hsucc : s.displacementAt (index + 1) resident = s.displacementAt index resident + 1) :
    Landed s carried index (k + 1) 0 t := by
  have hshift : ∀ j, index + (j + 1) = index + 1 + j := fun j => by omega
  have hset : (s.set index (some carried)).capacity = s.capacity := capacity_set ..
  have hrest : ∀ j, j + 1 < s.capacity →
      (s.set index (some carried)).get (index + 1 + j) = s.get (index + 1 + j) := fun j hj => by
    rw [← hshift]
    exact get_set_of_ne s (mod_ne_add_mod index (Nat.succ_pos j) hj) _
  have hhere : t.get index = some carried := by
    rw [h.get_before (by omega), get_set_self s (by omega)]
  constructor
  case capacity_eq => exact h.capacity_eq.trans hset
  case place_le => exact Nat.zero_le _
  case get_place => exact hhere
  case displacement_place => rfl
  case taken => exact h.taken_of_get hhere
  case kept =>
    rintro (_ | j) hkj hj
    · omega
    · rw [hshift, h.kept j (Nat.lt_of_succ_lt_succ hkj) (by omega), hrest j hj]
  case moved =>
    rintro (_ | j) hj x hx
    · rw [Nat.add_zero, hhere] at hx
      exact Or.inl ⟨rfl, (Option.some.inj hx).symm⟩
    · rw [hshift] at hx ⊢
      rcases h.moved j (Nat.le_of_succ_le_succ hj) x hx with ⟨rfl, rfl⟩ | ⟨i, hi, hget, hgrown⟩
      · -- This is the resident that has given way here.
        have hplace := h.displacement_place
        rw [displacementAt_set, displacementAt_set, hsucc] at hplace
        refine Or.inr ⟨0, Nat.zero_le _, hr, ?_⟩
        show _ = s.displacementAt index x + (j + 1)
        omega
      · rw [displacementAt_set, displacementAt_set] at hgrown
        refine Or.inr ⟨i + 1, Nat.succ_le_succ hi, ?_, ?_⟩
        · rw [hshift, ← hrest i (by omega), hget]
        · rw [hshift i, hgrown, Nat.add_sub_add_right]

/-- Of the vacant slots the walk takes the one that ends the stretch. -/
theorem get_eq_none_iff (h : Landed s carried index k place t) (hk : k < s.capacity)
    (hfull : ∀ j < k, s.get (index + j) ≠ none) (i : ℕ) :
    t.get i = none ↔ s.get i = none ∧ i % s.capacity ≠ (index + k) % s.capacity := by
  obtain ⟨j, hj, hmod⟩ := exists_add_mod_eq (Nat.zero_lt_of_lt hk) index i
  have ht : (index + j) % t.capacity = i % t.capacity := by rw [h.capacity_eq, hmod]
  rw [← hmod, ← get_congr s hmod, ← get_congr t ht]
  rcases Nat.lt_trichotomy j k with hbefore | rfl | hafter
  · exact iff_of_false (h.taken j hbefore.le) fun hs => hfull j hbefore hs.1
  · exact iff_of_false (h.taken j (Nat.le_refl j)) fun hs => hs.2 rfl
  · -- Less than a round past the end of the stretch lies another place of the ring.
    have hne : (index + k) % s.capacity ≠ (index + k + (j - k)) % s.capacity :=
      mod_ne_add_mod _ (Nat.sub_pos_of_lt hafter) (by omega)
    rw [show index + k + (j - k) = index + j by omega] at hne
    rw [h.kept j hafter hj, and_iff_left hne.symm]

end Landed

/-! ## The walk -/

section Walk

variable {s : Slots α} {carried resident : Slot α} {index left : ℕ}

/-- A walk that starts at a vacant slot ends there. -/
theorem placeFrom_of_get_none (hv : s.get index = none) (hleft : 0 < left) (carried : Slot α)
    (settled : Option ℕ) : placeFrom left s carried index settled
      = (s.set index (some carried), some (settled.getD index)) := by
  obtain ⟨left, rfl⟩ := Nat.exists_eq_add_one_of_ne_zero (Nat.ne_zero_of_lt hleft)
  rw [placeFrom, hv]

/-- A resident closer to its home gives way and is carried on. -/
theorem placeFrom_of_lt (hr : s.get index = some resident)
    (hlt : s.displacementAt index resident < s.displacementAt index carried) (settled : Option ℕ) :
    placeFrom (left + 1) s carried index settled
      = placeFrom left (s.set index (some carried)) resident (index + 1)
        (some (settled.getD index)) := by
  rw [placeFrom, hr]
  exact if_pos hlt

/-- Any other resident stays. -/
theorem placeFrom_of_le (hr : s.get index = some resident)
    (hle : s.displacementAt index carried ≤ s.displacementAt index resident)
    (settled : Option ℕ) : placeFrom (left + 1) s carried index settled
      = placeFrom left s carried (index + 1) settled := by
  rw [placeFrom, hr]
  exact if_neg (Nat.not_lt_of_le hle)

/-- The walk to the first vacant slot, however many slots it might still visit. -/
theorem InHand.exists_landed {k : ℕ} (h : InHand s carried index k)
    (hfull : ∀ j < k, s.get (index + j) ≠ none) :
    ∃ place t, Landed s carried index k place t ∧ ∀ left settled, k < left →
      placeFrom left s carried index settled = (t, some (settled.getD (index + place))) := by
  induction k generalizing s carried index with
  | zero =>
    have hc := h.two_le
    exact ⟨0, _, landed_set (by omega) carried, fun left settled hleft =>
      placeFrom_of_get_none h.vacant hleft carried settled⟩
  | succ k ih =>
    have hroom := h.room
    have hshift : ∀ j, index + (j + 1) = index + 1 + j := fun j => by omega
    have hfull' : ∀ j < k, s.get (index + 1 + j) ≠ none := fun j hj => by
      rw [← hshift]
      exact hfull (j + 1) (by omega)
    obtain ⟨resident, hr⟩ := Option.ne_none_iff_exists'.1 (hfull 0 (Nat.succ_pos k))
    rw [Nat.add_zero] at hr
    rcases Nat.lt_or_ge (s.displacementAt index resident) (s.displacementAt index carried) with
      hlt | hle
    · -- The resident is in hand from the next slot on, and the walk no longer comes to this one.
      have hsucc : s.displacementAt (index + 1) resident = s.displacementAt index resident + 1 :=
        displacement_succ (show s.displacementAt index resident + 1 < s.capacity by omega)
      obtain ⟨place, t, hlanded, hwalk⟩ := ih (h.swap hr hlt) fun j hj => by
        rw [← hshift, get_set_of_ne s (mod_ne_add_mod index (Nat.succ_pos j) (by omega)), hshift]
        exact hfull' j hj
      refine ⟨0, t, hlanded.swap (by omega) hr hsucc, fun left settled hleft => ?_⟩
      obtain ⟨left, rfl⟩ := Nat.exists_eq_add_one_of_ne_zero (Nat.ne_zero_of_lt hleft)
      rw [placeFrom_of_lt hr hlt, hwalk left _ (Nat.lt_of_succ_lt_succ hleft)]
      rfl
    · obtain ⟨place, t, hlanded, hwalk⟩ := ih (h.pass hr hle) hfull'
      refine ⟨place + 1, t, hlanded.pass (by omega) hr h.displacementAt_succ,
        fun left settled hleft => ?_⟩
      obtain ⟨left, rfl⟩ := Nat.exists_eq_add_one_of_ne_zero (Nat.ne_zero_of_lt hleft)
      rw [placeFrom_of_le hr hle, hwalk left _ (Nat.lt_of_succ_lt_succ hleft), hshift place]

end Walk

/-! ## Placing from the home bucket -/

/-- A ring of one slot is in order, and a run starts there. -/
theorem ordered_of_capacity_eq_one {s : Slots α} (hc : s.capacity = 1) :
    s.Ordered ∧ s.HasRunStart := by
  have hdepth : ∀ i, s.depth i ≤ 1 := fun i => hc ▸ depth_le_capacity s (by omega) i
  constructor
  · refine (ordered_iff_depth s).2 fun i => ?_
    have := hdepth (i + 1)
    omega
  · exact hasRunStart_of_depth (by omega) (hdepth 0)

/-- In an ordered ring the walk from the home bucket of the newcomer to the first vacant slot leaves
the entries where they belong, also in a ring of one slot. -/
theorem Ordered.exists_landed {s : Slots α} (ho : s.Ordered) (slot : Slot α) {k : ℕ}
    (hk : k < s.capacity) (hv : IsLeast {k | s.get (home slot.hash s.capacity + k) = none} k) :
    ∃ place t, Landed s slot (home slot.hash s.capacity) k place t ∧ Placed s.contents slot t ∧
      ∀ left settled, k < left → placeFrom left s slot (home slot.hash s.capacity) settled
        = (t, some (settled.getD (home slot.hash s.capacity + place))) := by
  rcases Nat.lt_or_ge 1 s.capacity with htwo | hone
  · have hhand := InHand.start htwo ho hk hv.1
    obtain ⟨place, t, hlanded, hwalk⟩ := hhand.exists_landed fun j hj hnone =>
      Nat.not_le_of_lt hj (hv.2 hnone)
    have hplaced := (placeFrom_spec hhand (Nat.lt_succ_self k) none).1
    rw [hwalk _ none (Nat.lt_succ_self k)] at hplaced
    exact ⟨place, t, hlanded, hplaced, hwalk⟩
  · -- On a ring of one slot the entry in hand is put down at once, and every such ring is in order.
    obtain rfl : k = 0 := by omega
    have hnone : s.get (home slot.hash s.capacity) = none := hv.1
    obtain ⟨hordered, hstart⟩ := ordered_of_capacity_eq_one
      (s := s.set (home slot.hash s.capacity) (some slot)) (by rw [capacity_set]; omega)
    exact ⟨0, _, landed_set hk slot, ⟨hordered, hstart, contents_set_of_get_none hk hnone slot⟩,
      fun left settled hleft => placeFrom_of_get_none hnone hleft slot settled⟩

/-- A ring with a vacant slot has a first one from any index on. -/
theorem exists_isLeast_vacant {s : Slots α} (hv : ∃ i < s.capacity, s.get i = none) (index : ℕ) :
    ∃ k < s.capacity, IsLeast {k | s.get (index + k) = none} k := by
  obtain ⟨i, hi, hnone⟩ := hv
  obtain ⟨k, hk, hmod⟩ := exists_add_mod_eq (Nat.zero_lt_of_lt hi) index i
  have hk0 : s.get (index + k) = none := by rw [get_congr s hmod, hnone]
  have hvacant : ∃ k, s.get (index + k) = none := ⟨k, hk0⟩
  exact ⟨Nat.find hvacant, (Nat.find_min' hvacant hk0).trans_lt hk, Nat.find_spec hvacant,
    fun _ => Nat.find_min' hvacant⟩

/-- Placing `slot` in the ring `s` leaves `t` and puts it `place` slots past its home bucket, where
the first vacant slot is `distance` slots past the home bucket. -/
structure PlacesExactly (s : Slots α) (slot : Slot α) (distance place : ℕ) (t : Slots α) :
    Prop where
  /-- The first vacant slot is less than a round away. -/
  distance_lt : distance < s.capacity
  /-- No slot before it is vacant. -/
  first_vacant : IsLeast {k | s.get (home slot.hash s.capacity + k) = none} distance
  /-- The walk succeeds at the first vacant slot and reports the place. -/
  placeFrom_eq : placeFrom (distance + 1) s slot (home slot.hash s.capacity) none
    = (t, some (home slot.hash s.capacity + place))
  /-- So does the one that may go once round. -/
  place_eq : s.place slot = (t, some ((home slot.hash s.capacity + place) % s.capacity))
  /-- The order is kept, a run starts somewhere, and the newcomer is added to the contents. -/
  placed : Placed s.contents slot t
  /-- The newcomer itself lies at the place reported, the other entries of the stretch have moved on
  by as many slots as their displacement has grown, and the other slots are as they were. -/
  landed : Landed s slot (home slot.hash s.capacity) distance place t
  /-- The newcomer is displaced by as many slots as it was carried. -/
  displacement_eq : s.displacementAt (home slot.hash s.capacity + place) slot = place
  /-- Of the vacant slots only the first has been taken. -/
  vacant_iff : ∀ i, t.get i = none ↔
    s.get i = none ∧ i % s.capacity ≠ (home slot.hash s.capacity + distance) % s.capacity

/-- Placing an entry in an ordered ring with a vacant slot, if only one, places it exactly, whatever
the number of slots is, a power of two or not. -/
theorem placesExactly_of_ordered {s : Slots α} (ho : s.Ordered)
    (hv : ∃ i < s.capacity, s.get i = none) (slot : Slot α) :
    ∃ distance place t, PlacesExactly s slot distance place t := by
  obtain ⟨distance, hlt, hfirst⟩ := exists_isLeast_vacant hv (home slot.hash s.capacity)
  obtain ⟨place, t, hlanded, hplaced, hwalk⟩ := ho.exists_landed slot hlt hfirst
  have hhome : s.displacementAt (home slot.hash s.capacity) slot = 0 :=
    displacement_home slot.hash s.capacity
  refine ⟨distance, place, t, ?_⟩
  constructor
  case distance_lt => exact hlt
  case first_vacant => exact hfirst
  case placeFrom_eq => exact hwalk _ none (Nat.lt_succ_self distance)
  case place_eq =>
    rw [Slots.place, hwalk _ none hlt, ← hlanded.capacity_eq]
    rfl
  case placed => exact hplaced
  case landed => exact hlanded
  case displacement_eq => rw [hlanded.displacement_place, hhome, Nat.zero_add]
  case vacant_iff =>
    exact hlanded.get_eq_none_iff hlt fun j hj hnone =>
      Nat.not_le_of_lt hj (hfirst.2 hnone)

/-- A ring whose last vacant slot lies six slots past the home bucket of the newcomer, over the end
of the ring: it takes the first slot, and four residents move on by one slot each. -/
theorem placesExactly_of_last_vacant : ∃ s : Slots ℕ, s.capacity.isPowerOfTwo ∧ s.Ordered ∧
    s.cells.toList.map (·.map Slot.item)
      = [some 2, some 3, some 4, some 5, none, some 7, some 0, some 1] ∧
    (s.place ⟨6, 9⟩).1.cells.toList.map (·.map Slot.item)
      = [some 9, some 2, some 3, some 4, some 5, some 7, some 0, some 1] ∧
    (s.place ⟨6, 9⟩).2 = some 0 ∧ ∃ distance place t, PlacesExactly s ⟨6, 9⟩ distance place t := by
  let s : Slots ℕ := ⟨#[some ⟨7, 2⟩, some ⟨0, 3⟩, some ⟨2, 4⟩, some ⟨3, 5⟩, none, some ⟨5, 7⟩,
    some ⟨6, 0⟩, some ⟨6, 1⟩]⟩
  have hc : s.capacity.isPowerOfTwo := ⟨3, rfl⟩
  have ho : s.Ordered := (ordered_iff s (by decide)).2 (by decide +kernel)
  exact ⟨s, hc, ho, rfl, by decide +kernel, by decide +kernel,
    placesExactly_of_ordered ho ⟨4, by decide, rfl⟩ ⟨6, 9⟩⟩

end Slots

end OpenAddressing
