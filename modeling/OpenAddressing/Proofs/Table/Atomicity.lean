import OpenAddressing.Proofs.Table.Reachable

/-!
# A table whose operation fails is left as it was

No table that comes about is marked as being rehashed (`Reachable.resizing_eq`): only a rehash sets
the mark, on the ring that it fills, and takes it off again. So a refused rehash, which takes the
mark off, leaves the table as it was.

An insertion is the delicate case, since it may grow the table and then still be refused. It never
is: a table that has grown once needs to grow again only when four times its slots are no count, and
so many slots cannot be obtained in the first place, as they have no addresses. So the loop that
makes room comes to one doubling, however many turns it is allowed (`growFrom_of_grow`), and a table
that has grown has a vacant slot (`makeRoom_of_addressable`). `AllOrNothing` collects what this says
of every operation that can fail.
-/

namespace OpenAddressing

universe u v

/-- Only so many slots can be obtained as have addresses: an array has fewer than `2 ^ 63` bytes,
and a slot takes one at least. -/
def Allocator.Addressable (available : Allocator) : Prop :=
  ∀ n, available n = true → n < 2 ^ 63

namespace Table

variable {α : Type u} {t u : Table α}

/-! ## The mark of a rehash -/

/-- A rehash takes the mark off or does nothing. -/
theorem resizing_resizeTo (h : t.resizing = false) (available : Allocator) (capacity : ℕ) :
    (t.resizeTo available capacity).state.resizing = false := by
  unfold resizeTo
  split
  · exact h
  · split
    · exact h
    · split <;> rfl

/-- So do growing and shrinking. -/
theorem resizing_resize (h : t.resizing = false) (available : Allocator)
    (adjustment : Adjustment) : (t.resize available adjustment).state.resizing = false := by
  cases adjustment with
  | grow =>
    rw [resize]
    split
    · exact h
    · exact resizing_resizeTo h available _
  | shrink => exact resizing_resizeTo h available _
  | keep => exact h

/-- So does making room for one more entry. -/
theorem resizing_growFrom (h : t.resizing = false) (available : Allocator) (policy : ResizePolicy)
    (left : ℕ) : (growFrom available policy left t).state.resizing = false := by
  induction left generalizing t with
  | zero => exact h
  | succ left ih =>
    rw [growFrom]
    split
    · have hgrown := resizing_resize h available .grow
      generalize t.resize available .grow = outcome at hgrown
      obtain ⟨_ | _, u⟩ := outcome
      · exact hgrown
      · exact ih hgrown
    · exact h

/-- Placing a new entry keeps the mark. -/
theorem resizing_put (t : Table α) (slot : Slot α) : (t.put slot).state.resizing = t.resizing := by
  unfold put
  dsimp only
  split
  · rfl
  · split <;> rfl

/-- Changing the item found keeps the mark. -/
theorem resizing_update? {β : Type v} (t : Table α) (hash : UInt32) (eq : α → Bool)
    (f : α → β × α) : (t.update? hash eq f).2.resizing = t.resizing := by
  rcases t.exists_selects_or hash eq with ⟨index, slot, hselect⟩ | hmiss
  · rw [hselect.update?_eq]
  · rw [update?_of_search_none hmiss]

/-- An insertion takes the mark off or keeps it off. -/
theorem resizing_insert (h : t.resizing = false) (available : Allocator) (policy : ResizePolicy)
    (hash : UInt32) (item : α) (eq : α → Bool) :
    (t.insert available policy hash item eq).state.resizing = false := by
  rcases t.exists_selects_or hash eq with ⟨index, slot, hselect⟩ | hmiss
  · rw [hselect.insert_eq]
    exact h
  · have hroom := resizing_growFrom h available policy 64
    rw [insert_of_search_none hmiss, insertNew, makeRoom]
    generalize growFrom available policy 64 t = outcome at hroom
    obtain ⟨_ | _, u⟩ := outcome
    · exact hroom
    · have hput := resizing_put u ⟨hash, item⟩
      rw [Outcome.andThen_ok]
      generalize u.put ⟨hash, item⟩ = outcome at hput
      obtain ⟨_ | _, w⟩ := outcome <;> exact hput.trans hroom

/-- Taking out an entry keeps the mark. -/
theorem resizing_eraseAt (t : Table α) (index : ℕ) :
    (t.eraseAt index).2.resizing = t.resizing := by
  unfold eraseAt
  dsimp only
  split <;> rfl

/-- A removal keeps the mark off. -/
theorem resizing_remove (h : t.resizing = false) (available : Allocator) (policy : ResizePolicy)
    (hash : UInt32) (eq : α → Bool) :
    (t.remove available policy hash eq).state.resizing = false := by
  unfold remove
  split
  · exact h
  · rename_i index _
    have herase := (resizing_eraseAt t index).trans h
    generalize t.eraseAt index = taken at herase
    obtain ⟨_ | _, u⟩ := taken
    · exact herase
    · dsimp only
      split
      · exact resizing_resize herase available .shrink
      · exact herase

/-- A walk in place keeps the mark. -/
theorem resizing_sweepFrom {σ : Type v} (visit : α → σ → Verdict α × σ) (turns slots index : ℕ)
    (t : Table α) (removed : List α) (state : σ) :
    (sweepFrom visit turns slots index t removed state).table.resizing = t.resizing := by
  induction turns generalizing slots index t removed state with
  | zero => rfl
  | succ turns ih =>
    cases slots with
    | zero => rfl
    | succ slots =>
      rw [sweepFrom]
      split
      -- The slot is vacant, or its entry is kept or removed.
      · exact ih ..
      · dsimp only
        split
        · exact ih ..
        · rename_i slot _ _
          have herase := resizing_eraseAt
            (t.setItem index ⟨slot.hash, (visit slot.item state).1.item⟩) index
          generalize (t.setItem index ⟨slot.hash, (visit slot.item state).1.item⟩).eraseAt index
            = taken at herase
          obtain ⟨_ | _, u⟩ := taken <;> exact (ih ..).trans herase

/-- A rebuilding walk keeps the mark. -/
theorem resizing_rebuildFrom {σ : Type v} (visit : α → σ → Verdict α × σ) (rest : List (Slot α))
    (t : Table α) (removed : List α) (state : σ) :
    (rebuildFrom visit rest t removed state).table.resizing = t.resizing := by
  induction rest generalizing t removed state with
  | nil => rfl
  | cons slot rest ih =>
    rw [rebuildFrom]
    dsimp only
    split
    · split <;> exact ih ..
    · exact ih ..

/-- A reservation keeps the mark off. -/
theorem resizing_reserve (h : t.resizing = false) (available : Allocator) (additional : ℕ) :
    (t.reserve available additional).state.resizing = false := by
  unfold reserve
  split
  · exact h
  · split
    · exact resizing_resizeTo h available _
    · exact h

/-- A reduction to the slots that fit keeps the mark off. -/
theorem resizing_shrinkToFit (h : t.resizing = false) (available : Allocator) :
    (t.shrinkToFit available).resizing = false := by
  unfold shrinkToFit
  split
  · exact h
  · split
    · exact resizing_resizeTo h available _
    · exact h

/-- A walk that keeps some of the entries keeps the mark. -/
theorem resizing_retain {σ : Type v} (t : Table α) (visit : α → σ → Verdict α × σ) (state : σ) :
    (t.retain visit state).table.resizing = t.resizing := by
  unfold retain
  split
  · exact resizing_rebuildFrom ..
  · exact resizing_sweepFrom ..

/-- No step marks a table as being rehashed. -/
theorem Step.resizing_eq (hstep : Step t u) (h : t.resizing = false) : u.resizing = false := by
  cases hstep with
  | insert _ available policy hash item eq => exact resizing_insert h available policy hash item eq
  | update _ hash eq f => exact (resizing_update? t hash eq _).trans h
  | remove _ available policy hash eq => exact resizing_remove h available policy hash eq
  | resize _ available adjustment => exact resizing_resize h available adjustment
  | reserve _ available additional => exact resizing_reserve h available additional
  | shrinkToFit _ available => exact resizing_shrinkToFit h available
  | retain _ visit state => exact (resizing_retain t visit state).trans h
  | clear => exact h
  | drain => exact h
  | copy => rfl
  | mapFirst => exact h

/-- A new table is not marked. -/
theorem resizing_withCapacity {available : Allocator} {n : ℕ}
    (h : withCapacity available n = .ok t) : t.resizing = false := by
  unfold withCapacity at h
  split at h
  · cases h
  · split at h
    · obtain rfl := Except.ok.inj h
      rfl
    · cases h

/-- No table that comes about is marked as being rehashed. -/
theorem Reachable.resizing_eq (h : t.Reachable) : t.resizing = false := by
  induction h with
  | empty => rfl
  | withCapacity h => exact resizing_withCapacity h
  | step _ hstep ih => exact hstep.resizing_eq ih

/-! ## Operations that fail -/

/-- Taking the mark off a table that has none changes nothing. -/
theorem with_resizing_false (h : t.resizing = false) : { t with resizing := false } = t := by
  obtain ⟨slots, size, resizing⟩ := t
  exact congrArg (Table.mk slots size) h.symm

/-- A rehash that is refused leaves the table as it was. -/
theorem resizeTo_of_error (hw : t.WellFormed) (hidle : t.resizing = false) {available : Allocator}
    {capacity : ℕ} (hpow : capacity.isPowerOfTwo) {e : Error}
    (h : (t.resizeTo available capacity).answer = .error e) :
    (t.resizeTo available capacity).state = t := by
  rcases resizeTo_cases hw available hpow with ⟨-, heq⟩ | ⟨-, -, heq⟩ | ⟨-, -, -, -, heq⟩ |
    ⟨-, -, -, -, u, heq, -⟩
  · rw [heq]
  · rw [heq]
  · rw [heq]
    exact with_resizing_false hidle
  · rw [heq] at h
    cases h

/-- So do growing and shrinking. -/
theorem resize_of_error (hw : t.WellFormed) (hidle : t.resizing = false) {available : Allocator}
    {adjustment : Adjustment} {e : Error} (h : (t.resize available adjustment).answer = .error e) :
    (t.resize available adjustment).state = t := by
  cases adjustment with
  | grow =>
    rw [resize] at h ⊢
    cases hdouble : Count.mul? t.capacity 2 with
    | none => rfl
    | some capacity =>
      rw [hdouble] at h
      obtain ⟨-, rfl⟩ := Count.mul?_eq_some_iff.1 hdouble
      exact resizeTo_of_error hw hidle (Nat.isPowerOfTwo_mul_two_of_isPowerOfTwo hw.capacity_eq) h
  | shrink => exact resizeTo_of_error hw hidle (isPowerOfTwo_half hw.capacity_eq) h
  | keep => rfl

/-- When growing or shrinking fails, that is all that comes of it. -/
theorem resize_eq_of_error (hw : t.WellFormed) (hidle : t.resizing = false) {available : Allocator}
    {adjustment : Adjustment} {e : Error} (h : (t.resize available adjustment).answer = .error e) :
    t.resize available adjustment = ⟨.error e, t⟩ := by
  have hstate := resize_of_error hw hidle h
  show (⟨(t.resize available adjustment).answer, (t.resize available adjustment).state⟩ :
    Outcome (Table α) Unit) = ⟨.error e, t⟩
  rw [h, hstate]

/-- A reservation that fails leaves the table as it was. -/
theorem reserve_of_error (hw : t.WellFormed) (hidle : t.resizing = false) {available : Allocator}
    {additional : ℕ} {e : Error} (h : (t.reserve available additional).answer = .error e) :
    (t.reserve available additional).state = t := by
  rcases reserve_cases hw available additional with ⟨-, heq⟩ | ⟨n, -, ⟨-, -, heq⟩ | ⟨-, u, heq, -⟩⟩
  · rw [heq]
  · rw [heq]
    exact with_resizing_false hidle
  · rw [heq] at h
    cases h

/-- So does a removal. -/
theorem remove_of_error (hw : t.WellFormed) {available : Allocator} {policy : ResizePolicy}
    {hash : UInt32} {eq : α → Bool} {e : Error}
    (h : (t.remove available policy hash eq).answer = .error e) :
    (t.remove available policy hash eq).state = t := by
  rcases t.exists_selects_or hash eq with ⟨index, slot, hselect⟩ | hmiss
  · rw [hselect.remove_eq hw] at h
    cases h
  · rw [remove_of_search_none hmiss]

/-- Twice the slots can be obtained if growing succeeds. -/
theorem available_of_grow (hw : t.WellFormed) {available : Allocator}
    (h : (t.resize available .grow).answer = .ok ()) : available (t.capacity * 2) = true := by
  have hc : 0 < t.capacity := hw.capacity_pos
  rw [resize] at h
  cases hdouble : Count.mul? t.capacity 2 with
  | none =>
    rw [hdouble] at h
    cases h
  | some capacity =>
    rw [hdouble] at h
    dsimp only at h
    obtain ⟨-, rfl⟩ := Count.mul?_eq_some_iff.1 hdouble
    rcases resizeTo_cases hw available
      (Nat.isPowerOfTwo_mul_two_of_isPowerOfTwo hw.capacity_eq) with ⟨hsame, -⟩ | ⟨-, -, heq⟩ |
      ⟨-, -, -, -, heq⟩ | ⟨-, -, -, hyes, -⟩
    · omega
    · rw [heq] at h
      cases h
    · rw [heq] at h
      cases h
    · exact hyes

/-- A table that has grown need not grow again for one more entry: four times the slots there were
are a count, since twice as many have addresses. -/
theorem adjustment_ne_grow_of_grown (hw : t.WellFormed) {available : Allocator}
    (haddr : available.Addressable) (h : t.resize available .grow = ⟨.ok (), u⟩)
    (policy : ResizePolicy) : u.adjustment (u.size + 1) policy ≠ .grow := by
  have hsize := hw.size_le
  have hyes := haddr _ (available_of_grow hw (by rw [h]))
  have hlimit : Count.limit = 2 ^ 64 := rfl
  rcases resize_grow_cases hw available with ⟨v, hv, hre, hcap, -⟩ | ⟨v, e, hv, -⟩
  · rw [h] at hv
    obtain rfl := (Outcome.mk.inj hv).2
    intro hagain
    unfold adjustment at hagain
    rw [hcap, hre.size_eq hw] at hagain
    have hmany := limit_le_of_grow_again hw (by omega) hagain
    omega
  · rw [h] at hv
    cases hv

/-- Without growth to be done the loop ends at once. -/
theorem growFrom_of_ne_grow {policy : ResizePolicy}
    (h : t.adjustment (t.size + 1) policy ≠ .grow) (available : Allocator) (left : ℕ) :
    growFrom available policy left t = ⟨.ok (), t⟩ := by
  cases left with
  | zero => rfl
  | succ left => rw [growFrom, if_neg h]

/-- With growth to be done the loop comes to one doubling, however many more turns are left: it
ends there when the slots cannot be obtained, and needs no second one when they can. -/
theorem growFrom_of_grow (hw : t.WellFormed) {available : Allocator}
    (haddr : available.Addressable) {policy : ResizePolicy}
    (h : t.adjustment (t.size + 1) policy = .grow) (left : ℕ) :
    growFrom available policy (left + 1) t = t.resize available .grow := by
  rw [growFrom, if_pos h]
  cases hgrow : t.resize available .grow with
  | mk answer u =>
    cases answer with
    | error e => rfl
    | ok _ =>
      -- The next turn finds that there is room, so it is no matter how many more are allowed.
      rw [Outcome.andThen_ok]
      exact growFrom_of_ne_grow (adjustment_ne_grow_of_grown hw haddr hgrow policy) ..

/-- Making room for one more entry grows the table once and leaves a vacant slot, or fails and
leaves the table as it was, or there is nothing to do. -/
theorem makeRoom_of_addressable (hw : t.WellFormed) (hidle : t.resizing = false)
    {available : Allocator} (haddr : available.Addressable) (policy : ResizePolicy) :
    (t.adjustment (t.size + 1) policy = .grow ∧
      ((∃ u, t.makeRoom available policy = ⟨.ok (), u⟩ ∧ u.WellFormed ∧ u.size < u.capacity) ∨
        ∃ e, t.makeRoom available policy = ⟨.error e, t⟩ ∧
          (t.resize available .grow).answer = .error e)) ∨
    (t.adjustment (t.size + 1) policy ≠ .grow ∧ t.makeRoom available policy = ⟨.ok (), t⟩) := by
  have hsize := hw.size_le
  have hc : 0 < t.capacity := hw.capacity_pos
  by_cases hgrow : t.adjustment (t.size + 1) policy = .grow
  · have hroom : t.makeRoom available policy = t.resize available .grow :=
      growFrom_of_grow hw haddr hgrow 63
    rw [hroom]
    refine Or.inl ⟨hgrow, ?_⟩
    rcases resize_grow_cases hw available with ⟨u, hu, hre, hcap, -⟩ | ⟨u, e, hu, -⟩
    · refine Or.inl ⟨u, hu, hre.wellFormed, ?_⟩
      rw [hre.size_eq hw, hcap]
      omega
    · have hfail := resize_eq_of_error hw hidle (congrArg Outcome.answer hu)
      exact Or.inr ⟨e, hfail, congrArg Outcome.answer hfail⟩
  · exact Or.inr ⟨hgrow, growFrom_of_ne_grow hgrow available 64⟩

/-- Placing a new entry succeeds, or fails and leaves the table as it was. -/
theorem put_cases (hw : t.WellFormed) (slot : Slot α) :
    (∃ i u, t.put slot = ⟨.ok i, u⟩) ∨ ∃ e, t.put slot = ⟨.error e, t⟩ := by
  rcases Nat.lt_or_ge t.size t.capacity with hroom | hfull
  · obtain ⟨i, u, hput, -⟩ := put_spec hw hroom slot
    exact Or.inl ⟨i, u, hput⟩
  · refine Or.inr ⟨.capacity t.slots.capacity, ?_⟩
    have hmore : t.slots.capacity < t.size + 1 := Nat.lt_succ_of_le hfull
    simp only [put, if_pos hmore]

/-- Adding an entry succeeds, or fails and leaves the table as it was. It does not fail once the
table has grown. -/
theorem insertNew_of_addressable (hw : t.WellFormed) (hidle : t.resizing = false)
    {available : Allocator} (haddr : available.Addressable) (policy : ResizePolicy) (hash : UInt32)
    (item : α) :
    (∃ i u, t.insertNew available policy hash item = ⟨.ok i, u⟩) ∨
    ∃ e, t.insertNew available policy hash item = ⟨.error e, t⟩ ∧
      (t.adjustment (t.size + 1) policy = .grow →
        (t.resize available .grow).answer = .error e) := by
  unfold insertNew
  rcases makeRoom_of_addressable hw hidle haddr policy with
    ⟨-, ⟨u, hu, hwu, hroom⟩ | ⟨e, he, hresize⟩⟩ | ⟨hkeep, hstay⟩
  · obtain ⟨i, w, hput, -⟩ := put_spec hwu hroom ⟨hash, item⟩
    rw [hu, Outcome.andThen_ok]
    exact Or.inl ⟨i, w, hput⟩
  · rw [he, Outcome.andThen_error]
    exact Or.inr ⟨e, rfl, fun _ => hresize⟩
  · rw [hstay, Outcome.andThen_ok]
    rcases put_cases hw ⟨hash, item⟩ with hput | ⟨e, hput⟩
    · exact Or.inl hput
    · exact Or.inr ⟨e, hput, fun hgrow => absurd hgrow hkeep⟩

/-- An insertion succeeds, or fails and leaves the table as it was. It does not fail once the table
has grown. -/
theorem insert_of_addressable (hw : t.WellFormed) (hidle : t.resizing = false)
    {available : Allocator} (haddr : available.Addressable) (policy : ResizePolicy) (hash : UInt32)
    (item : α) (eq : α → Bool) :
    (∃ old u, t.insert available policy hash item eq = ⟨.ok old, u⟩) ∨
    ∃ e, t.insert available policy hash item eq = ⟨.error e, t⟩ ∧
      (t.adjustment (t.size + 1) policy = .grow →
        (t.resize available .grow).answer = .error e) := by
  rcases t.exists_selects_or hash eq with ⟨index, slot, hselect⟩ | hmiss
  · exact Or.inl ⟨_, _, hselect.insert_eq ..⟩
  · rw [insert_of_search_none hmiss]
    rcases insertNew_of_addressable hw hidle haddr policy hash item with ⟨i, u, hu⟩ | ⟨e, he, hgrow⟩
    · rw [hu, Outcome.andThen_ok]
      exact Or.inl ⟨none, u, rfl⟩
    · rw [he, Outcome.andThen_error]
      exact Or.inr ⟨e, rfl, hgrow⟩

/-- What a table owes that an operation on it fails on. -/
structure AllOrNothing (t : Table α) : Prop where
  /-- The table is not marked as being rehashed. -/
  idle : t.resizing = false
  /-- An insertion that fails changes nothing, whichever of the slots that have addresses can be
  obtained. -/
  insert : ∀ available policy hash item eq e, Allocator.Addressable available →
    (t.insert available policy hash item eq).answer = .error e →
    (t.insert available policy hash item eq).state = t
  /-- An insertion that grows the table does not fail after that. -/
  grown : ∀ available policy hash item eq, Allocator.Addressable available →
    t.adjustment (t.size + 1) policy = .grow → (t.resize available .grow).answer = .ok () →
    ∃ old, (t.insert available policy hash item eq).answer = .ok old
  /-- A removal that fails changes nothing. -/
  remove : ∀ available policy hash eq e, (t.remove available policy hash eq).answer = .error e →
    (t.remove available policy hash eq).state = t
  /-- A change of the number of slots that fails changes nothing. -/
  resize : ∀ available adjustment e, (t.resize available adjustment).answer = .error e →
    (t.resize available adjustment).state = t
  /-- A reservation that fails changes nothing. -/
  reserve : ∀ available additional e, (t.reserve available additional).answer = .error e →
    (t.reserve available additional).state = t
  /-- Once a rehash has begun, every entry finds a slot. -/
  rehashed : ∀ capacity : ℕ, capacity.isPowerOfTwo → minCapacity ≤ capacity → t.size < capacity →
    (refill ⟨Slots.vacant capacity, 0, true⟩ t.entries).answer = .ok ()

/-- A well-formed table that is not marked as being rehashed is left as it was by every operation
that fails. -/
theorem WellFormed.allOrNothing (hw : t.WellFormed) (hidle : t.resizing = false) :
    t.AllOrNothing := by
  refine ⟨hidle, fun available policy hash item eq e haddr h => ?_,
    fun available policy hash item eq haddr hgrow hgrown => ?_,
    fun _ _ _ _ _ => remove_of_error hw, fun _ _ _ => resize_of_error hw hidle,
    fun _ _ _ => reserve_of_error hw hidle, fun capacity hpow hmin hsize => ?_⟩
  · rcases insert_of_addressable hw hidle haddr policy hash item eq with ⟨old, u, hu⟩ | ⟨e', he, -⟩
    · rw [hu] at h
      cases h
    · rw [he]
  · rcases insert_of_addressable hw hidle haddr policy hash item eq with ⟨old, u, hu⟩ |
      ⟨e, -, hfail⟩
    · exact ⟨old, by rw [hu]⟩
    · rw [hfail hgrow] at hgrown
      cases hgrown
  · -- The empty ring has more slots than there are entries to place.
    have hempty : (⟨Slots.vacant capacity, 0, true⟩ : Table α).WellFormed :=
      (wellFormed_vacant (α := α) hpow hmin).with_resizing true
    have hcap : (⟨Slots.vacant capacity, 0, true⟩ : Table α).capacity = capacity :=
      Slots.capacity_vacant _
    have hlen : t.entries.length = t.size := hw.size_eq.symm
    refine (refill_spec hempty ?_).1
    rw [hcap, hlen]
    show 0 + t.size ≤ capacity
    omega

end Table

end OpenAddressing
