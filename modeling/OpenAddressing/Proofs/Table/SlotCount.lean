import OpenAddressing.Proofs.Table.Atomicity
import OpenAddressing.Proofs.Table.Sizes

/-!
# What becomes of the slots, in numbers

How many slots a call leaves a table, and whether it is refused for want of them, does not depend on
where the entries lie. `SlotCount` gives each call that may change the slots as a function of their
number, the number of entries, the policy and the slots that can be obtained. A table does to its
slots what these functions say and answers accordingly: `onSlots_insertNew` and `onSlots_reserve`
for the calls that can be refused for want of slots, `Selects.capacity_remove_eq` and
`capacity_shrinkToFit` for those that cannot.

Room is made by doubling the slots at most once. A table is asked to grow a second time only where
the products that decide on growth saturate, and there four times the slots are no count, so that it
fails (`onSlots_resize_grow_again`).
-/

namespace OpenAddressing

universe u v w

namespace SlotCount

/-- Doubles the slots. -/
def double (available : Allocator) (slots : ℕ) : Outcome ℕ Unit :=
  if Count.limit ≤ slots * 2 then ⟨.error (.allocation Count.largest), slots⟩
  else if available (slots * 2) then ⟨.ok (), slots * 2⟩
  else ⟨.error (.allocation (slots * 2)), slots⟩

/-- Makes room on the slots for one more than `count` entries. If they have been doubled and are to
be doubled again, that fails. -/
def makeRoom (available : Allocator) (policy : ResizePolicy) (slots count : ℕ) : Outcome ℕ Unit :=
  if Table.adjustmentFor slots (count + 1) policy = .grow then
    (double available slots).andThen fun _ slots =>
      if Table.adjustmentFor slots (count + 1) policy = .grow then
        ⟨.error (.allocation Count.largest), slots⟩
      else ⟨.ok (), slots⟩
  else ⟨.ok (), slots⟩

/-- Takes one more than `count` entries, after room has been made. It is refused when all slots are
taken. -/
def insert (available : Allocator) (policy : ResizePolicy) (slots count : ℕ) : Outcome ℕ Unit :=
  (makeRoom available policy slots count).andThen fun _ slots =>
    if slots ≤ count then ⟨.error (.capacity slots), slots⟩ else ⟨.ok (), slots⟩

/-- Goes up to the slots that fit `additional` more than `count` entries. -/
def reserve (available : Allocator) (slots count additional : ℕ) : Outcome ℕ Unit :=
  match (Count.add? count additional).bind Table.fittingCapacity? with
  | none => ⟨.error (.allocation Count.largest), slots⟩
  | some fitting =>
    if fitting ≤ slots then ⟨.ok (), slots⟩
    else if available fitting then ⟨.ok (), fitting⟩
    else ⟨.error (.allocation fitting), slots⟩

/-- The slots after a removal that leaves `count` entries: half of them, if they are to shrink and
these can be obtained. -/
def afterRemoval (available : Allocator) (policy : ResizePolicy) (slots count : ℕ) : ℕ :=
  if Table.adjustmentFor slots count policy = .shrink ∧ available (slots / 2) then slots / 2
  else slots

/-- The slots that fit `count` entries, if they are fewer and can be obtained. -/
def toFit (available : Allocator) (slots count : ℕ) : ℕ :=
  match Table.fittingCapacity? count with
  | none => slots
  | some fitting => if fitting < slots ∧ available fitting then fitting else slots

end SlotCount

namespace Table

variable {α : Type u} {β : Type v} {γ : Type w} {t : Table α} {hash : UInt32} {eq : α → Bool}

/-- An operation on a table as far as the slots are concerned. -/
def onSlots (o : Outcome (Table α) β) : Outcome ℕ Unit :=
  ⟨o.answer.map fun _ => (), o.state.capacity⟩

/-- An operation that fails is not gone on with. -/
theorem onSlots_andThen_of_error {o : Outcome (Table α) β} {e : Error} {slots : ℕ}
    (h : onSlots o = ⟨.error e, slots⟩) (next : β → Table α → Outcome (Table α) γ) :
    onSlots (o.andThen next) = ⟨.error e, slots⟩ := by
  obtain ⟨_ | _, u⟩ := o
  · exact h
  · cases (Outcome.mk.inj h).1

/-! ## Insertion -/

/-- Growing doubles the slots. -/
theorem onSlots_resize_grow (hw : t.WellFormed) (available : Allocator) :
    onSlots (t.resize available .grow) = SlotCount.double available t.capacity := by
  have hfail : ∀ e, (t.resize available .grow).answer = .error e →
      onSlots (t.resize available .grow) = ⟨.error e, t.capacity⟩ := fun e he => by
    rw [onSlots, capacity_resize_grow_of_error hw he, he]
    rfl
  unfold SlotCount.double
  rcases resize_grow_cases hw available with ⟨u, hu, -, hcap, hlimit⟩ |
    ⟨u, e, hu, -, ⟨rfl, hlimit, hno⟩ | ⟨rfl, hlimit⟩⟩
  · have hyes : available (t.capacity * 2) = true := available_of_grow hw (by rw [hu])
    rw [if_neg (Nat.not_le.2 hlimit), if_pos hyes, hu, onSlots, hcap]
    rfl
  · rw [if_neg (Nat.not_le.2 hlimit), hno, if_neg Bool.false_ne_true]
    exact hfail _ (congrArg Outcome.answer hu)
  · rw [if_pos hlimit]
    exact hfail _ (congrArg Outcome.answer hu)

/-- Growing a table that has grown already fails. -/
theorem onSlots_resize_grow_again (hw : t.WellFormed) {u : Table α} (hre : Rehash t u)
    (hcap : u.capacity = t.capacity * 2) {policy : ResizePolicy}
    (hagain : u.adjustment (u.size + 1) policy = .grow) (available : Allocator) :
    onSlots (u.resize available .grow) = ⟨.error (.allocation Count.largest), u.capacity⟩ := by
  have hsize := hw.size_le
  have hlimit : Count.limit ≤ u.capacity * 2 := by
    unfold adjustment at hagain
    rw [hcap, hre.size_eq hw] at hagain
    have hmany := limit_le_of_grow_again hw (by omega) hagain
    omega
  rw [onSlots_resize_grow hre.wellFormed, SlotCount.double, if_pos hlimit]

/-- Making room for one more entry does to the slots what it does to their number. -/
theorem onSlots_makeRoom (hw : t.WellFormed) (available : Allocator) (policy : ResizePolicy) :
    onSlots (t.makeRoom available policy)
      = SlotCount.makeRoom available policy t.capacity t.size := by
  have hdouble := onSlots_resize_grow hw available
  unfold makeRoom SlotCount.makeRoom
  rw [growFrom]
  change _ = if t.adjustment (t.size + 1) policy = .grow then _ else _
  by_cases hgrow : t.adjustment (t.size + 1) policy = .grow
  · rw [if_pos hgrow, if_pos hgrow, ← hdouble]
    rcases resize_grow_cases hw available with ⟨u, hu, hre, hcap, -⟩ | ⟨u, e, hu, -⟩
    · -- The loop has another turn, which finds that there is room or fails.
      rw [hu, Outcome.andThen_ok, growFrom, ← hre.size_eq hw]
      change _ = if u.adjustment (u.size + 1) policy = .grow then _ else _
      by_cases hagain : u.adjustment (u.size + 1) policy = .grow
      · rw [if_pos hagain, if_pos hagain]
        exact onSlots_andThen_of_error (onSlots_resize_grow_again hw hre hcap hagain available) _
      · rw [if_neg hagain, if_neg hagain]
        rfl
    · rw [hu]
      rfl
  · rw [if_neg hgrow, if_neg hgrow]
    rfl

/-- The insertion of a new entry does to the slots what taking one more does to their number. -/
theorem onSlots_insertNew (hw : t.WellFormed) (available : Allocator) (policy : ResizePolicy)
    (hash : UInt32) (item : α) :
    onSlots (t.insertNew available policy hash item)
      = SlotCount.insert available policy t.capacity t.size := by
  unfold insertNew SlotCount.insert
  rw [← onSlots_makeRoom hw]
  rcases makeRoom_cases hw available policy with ⟨u, hu, hre, -⟩ | ⟨e, u, hu, -⟩
  · rw [hu, Outcome.andThen_ok, ← hre.size_eq hw]
    change _ = if u.capacity ≤ u.size then _ else _
    by_cases hfull : u.capacity ≤ u.size
    · have hmore : u.slots.capacity < u.size + 1 := Nat.lt_succ_of_le hfull
      rw [if_pos hfull]
      simp only [put, if_pos hmore]
      rfl
    · obtain ⟨i, v, hput, -, hcap, -⟩ :=
        put_spec hre.wellFormed (Nat.lt_of_not_le hfull) ⟨hash, item⟩
      rw [if_neg hfull, hput, onSlots, hcap]
      rfl
  · rw [hu]
    rfl

/-! ## Removal -/

/-- A removal does to the slots what it does to their number. -/
theorem Selects.capacity_remove_eq {index : ℕ} {slot : Slot α} (h : t.Selects hash eq index slot)
    (hw : t.WellFormed) (available : Allocator) (policy : ResizePolicy) :
    (t.remove available policy hash eq).state.capacity
      = SlotCount.afterRemoval available policy t.capacity (t.size - 1) := by
  obtain ⟨hwu, hcap, hsize⟩ := h.eraseAt_sizes hw
  unfold SlotCount.afterRemoval
  rw [h.remove_eq hw]
  dsimp only
  by_cases hshrink : t.adjustment (t.size - 1) policy = .shrink
  · obtain ⟨hmin, hroom⟩ := lt_half_of_shrink hshrink
    -- There is room on half the slots, so it is up to whether they can be obtained.
    have hhalve := capacity_resize_shrink hwu available (by rwa [hcap]) (by rw [hcap]; omega)
    rw [if_pos hshrink, hhalve, hcap]
    simp only [show adjustmentFor t.capacity (t.size - 1) policy = .shrink from hshrink, true_and]
  · rw [if_neg hshrink, hcap, if_neg fun hboth => hshrink hboth.1]

/-! ## Reserving and shrinking to fit -/

/-- A reservation does to the slots what it does to their number. -/
theorem onSlots_reserve (hw : t.WellFormed) (available : Allocator) (additional : ℕ) :
    onSlots (t.reserve available additional)
      = SlotCount.reserve available t.capacity t.size additional := by
  unfold SlotCount.reserve
  rcases reserve_cases hw available additional with ⟨hfit, hu⟩ |
    ⟨n, hfit, ⟨hmore, hno, hu⟩ | ⟨hyes, u, hu, -, hcap⟩⟩
  · rw [hfit, hu]
    rfl
  · rw [hfit, hu]
    dsimp only
    rw [if_neg (Nat.not_le.2 hmore), hno]
    rfl
  · rw [hfit, hu]
    dsimp only
    rw [onSlots, hcap]
    rcases Nat.lt_or_ge t.capacity n with hmore | hle
    · rw [if_neg (Nat.not_le.2 hmore), if_pos (hyes hmore), Nat.max_eq_right hmore.le]
      rfl
    · rw [if_pos hle, Nat.max_eq_left hle]
      rfl

/-- Shrinking to fit does to the slots what it does to their number. -/
theorem capacity_shrinkToFit (hw : t.WellFormed) (available : Allocator) :
    (t.shrinkToFit available).capacity = SlotCount.toFit available t.capacity t.size := by
  unfold shrinkToFit SlotCount.toFit
  cases hfit : fittingCapacity? t.size with
  | none => rfl
  | some n =>
    dsimp only
    by_cases hless : n < t.capacity
    · have hload := (fits_fitting t.size).load
      obtain ⟨rfl, -⟩ := eq_fitting_of_fittingCapacity hfit
      have hpow := (fits_fitting t.size).isPowerOfTwo
      have hfour := (fits_fitting t.size).four_le
      rw [if_pos hless]
      rcases resizeTo_cases hw available hpow with ⟨hsame, -⟩ | ⟨-, hfew, -⟩ | ⟨-, -, -, hno, h⟩ |
        ⟨-, -, -, hyes, u, h, -, hcap, -⟩
      · omega
      · -- Below three quarters, the entries leave some of the slots vacant.
        unfold minCapacity at hfew
        omega
      · rw [h, hno, if_neg fun hboth => Bool.false_ne_true hboth.2]
        rfl
      · rw [h, if_pos ⟨hless, hyes⟩]
        exact hcap
    · rw [if_neg hless, if_neg fun hboth => hless hboth.1]

end Table

end OpenAddressing
