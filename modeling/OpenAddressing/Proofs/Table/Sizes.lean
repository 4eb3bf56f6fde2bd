import OpenAddressing.Proofs.Table.Reachable
import OpenAddressing.Proofs.Table.Thresholds

/-!
# How many entries and slots a call leaves

Whether a table grows or shrinks depends on the number of its entries and of its slots, and so here
each call is given by what it does to these two: `insert_sizes`, `remove_sizes`, `reserve_sizes`,
`shrinkToFit_sizes` and `size_retain_le`. `Doubled` and `Halved` say what a change of the slots by
an insertion or a removal means for the load afterwards.

An insertion that is refused leaves as many slots as there were, with one exception: on a quarter of
the limit of slots the products that decide on growth saturate, and a table there may be asked to
grow a second time, which cannot be granted. It has doubled its slots then, and was as good as full
(`limit_le_and_load_of_grow_again`).

The number of slots is a count in every table that comes about (`Reachable.capacity_lt_limit`), so a
table never shrinks because a product has saturated.
-/

namespace OpenAddressing

universe u v

namespace Table

variable {α : Type u} {t u : Table α} {hash : UInt32} {eq : α → Bool}

/-- A well-formed table has at least four slots. -/
theorem WellFormed.four_le (hw : t.WellFormed) : 4 ≤ t.capacity := hw.minCapacity_le

/-! ## Changing the number of slots -/

/-- A rehash that fails leaves as many slots as there were. -/
theorem capacity_resizeTo_of_error (hw : t.WellFormed) {available : Allocator} {capacity : ℕ}
    (hpow : capacity.isPowerOfTwo) {e : Error}
    (h : (t.resizeTo available capacity).answer = .error e) :
    (t.resizeTo available capacity).state.capacity = t.capacity := by
  rcases resizeTo_cases hw available hpow with ⟨-, heq⟩ | ⟨-, -, heq⟩ | ⟨-, -, -, -, heq⟩ |
    ⟨-, -, -, -, v, heq, -⟩
  · rw [heq]
  · rw [heq]
  · rw [heq]
    rfl
  · rw [heq] at h
    cases h

/-- A rehash leaves the slots there were or those asked for. -/
theorem capacity_resizeTo_or (hw : t.WellFormed) (available : Allocator) {capacity : ℕ}
    (hpow : capacity.isPowerOfTwo) :
    (t.resizeTo available capacity).state.capacity = t.capacity ∨
      (t.resizeTo available capacity).state.capacity = capacity := by
  cases hanswer : (t.resizeTo available capacity).answer with
  | error e => exact Or.inl (capacity_resizeTo_of_error hw hpow hanswer)
  | ok _ => exact Or.inr (capacity_resizeTo hanswer)

/-- A growth that fails leaves as many slots as there were. -/
theorem capacity_resize_grow_of_error (hw : t.WellFormed) {available : Allocator} {e : Error}
    (h : (t.resize available .grow).answer = .error e) :
    (t.resize available .grow).state.capacity = t.capacity := by
  rw [resize] at h ⊢
  cases hdouble : Count.mul? t.capacity 2 with
  | none => rfl
  | some capacity =>
    rw [hdouble] at h
    obtain ⟨-, rfl⟩ := Count.mul?_eq_some_iff.1 hdouble
    exact capacity_resizeTo_of_error hw (Nat.isPowerOfTwo_mul_two_of_isPowerOfTwo hw.capacity_eq) h

/-! ## Making room for one more entry -/

/-- What it means that an insertion has made `u` of `t` by doubling the slots. -/
structure Doubled (t u : Table α) : Prop where
  /-- There are twice the slots. -/
  capacity_eq : u.capacity = 2 * t.capacity
  /-- They are a count. -/
  lt_limit : u.capacity < Count.limit
  /-- At least three eighths of them are taken. -/
  load : 3 * u.capacity ≤ 8 * u.size

/-- A table that has doubled its slots for one more entry and is to grow again had a quarter of the
limit of them, and was as good as full. -/
theorem limit_le_and_load_of_grow_again (hw : t.WellFormed) {policy : ResizePolicy}
    (hlimit : t.capacity * 2 < Count.limit)
    (hagain : adjustmentFor (t.capacity * 2) (t.size + 1) policy = .grow) :
    Count.limit ≤ t.capacity * 4 ∧ 6 * t.capacity ≤ 8 * t.size := by
  have hsize := hw.size_le
  have hquarter := Count.mul_four_le_limit hw.capacity_eq hlimit
  have hmany : Count.limit ≤ t.capacity * 4 := limit_le_of_grow_again hw (by omega) hagain
  refine ⟨hmany, ?_⟩
  -- Four times the entries to come reach the largest count, where the products saturate.
  obtain ⟨-, hsat⟩ := satMul_le_of_grow hagain
  rw [Count.limit_eq] at hmany hquarter
  unfold Count.satMul at hsat
  rw [Count.largest_eq] at hsat
  omega

/-- A table that is to grow takes a new entry only if twice its slots are a count. -/
theorem lt_limit_of_insertNew (hw : t.WellFormed) {available : Allocator} {policy : ResizePolicy}
    {hash : UInt32} {item : α} {i : ℕ} (hgrow : t.adjustment (t.size + 1) policy = .grow)
    (h : t.insertNew available policy hash item = ⟨.ok i, u⟩) : t.capacity * 2 < Count.limit := by
  unfold insertNew makeRoom at h
  rw [growFrom, if_pos hgrow] at h
  rcases resize_grow_cases hw available with ⟨v, -, -, -, hlimit⟩ | ⟨v, e, hv, -⟩
  · exact hlimit
  · rw [hv] at h
    cases h

/-- When room cannot be made there are as many slots as there were, or they have been doubled. -/
theorem capacity_makeRoom_of_error (hw : t.WellFormed) {available : Allocator}
    {policy : ResizePolicy} {e : Error} (h : t.makeRoom available policy = ⟨.error e, u⟩) :
    u.capacity = t.capacity ∨ Doubled t u := by
  unfold makeRoom at h
  rw [growFrom] at h
  by_cases hgrow : t.adjustment (t.size + 1) policy = .grow
  · rw [if_pos hgrow] at h
    rcases resize_grow_cases hw available with ⟨v, hv, hre, hcap, hlimit⟩ | ⟨v, e', hv, -⟩
    · -- The table has grown, so it was the second growth that failed.
      rw [hv, Outcome.andThen_ok, growFrom] at h
      by_cases hagain : v.adjustment (v.size + 1) policy = .grow
      · obtain ⟨hmany, hload⟩ : Count.limit ≤ t.capacity * 4 ∧ 6 * t.capacity ≤ 8 * t.size := by
          unfold adjustment at hagain
          rw [hcap, hre.size_eq hw] at hagain
          exact limit_le_and_load_of_grow_again hw hlimit hagain
        have hsize := ((rehash_resize hre.wellFormed available .grow).size_eq hre.wellFormed).trans
          (hre.size_eq hw)
        rw [if_pos hagain] at h
        rcases resize_grow_cases hre.wellFormed available with ⟨w, -, -, -, hlt⟩ |
          ⟨w, e', hresize, -⟩
        · omega
        · have hstay := capacity_resize_grow_of_error hre.wellFormed (congrArg Outcome.answer hresize)
          rw [hresize] at h hstay hsize
          dsimp only at hstay hsize
          obtain ⟨-, rfl⟩ := Outcome.mk.inj h
          have hdouble : w.capacity = 2 * t.capacity := by
            rw [hstay, hcap, Nat.mul_comm]
          exact Or.inr ⟨hdouble, by omega, by omega⟩
      · rw [if_neg hagain] at h
        cases h
    · have hstay := capacity_resize_grow_of_error hw (congrArg Outcome.answer hv)
      rw [hv] at h hstay
      obtain ⟨-, rfl⟩ := Outcome.mk.inj h
      exact Or.inl hstay
  · rw [if_neg hgrow] at h
    cases h

/-! ## Insertion -/

/-- Placing a new entry keeps the slots. -/
theorem capacity_put (t : Table α) (slot : Slot α) : (t.put slot).state.capacity = t.capacity := by
  have hplace := Slots.capacity_place t.slots slot
  unfold put
  dsimp only
  split
  · rfl
  · split
    · rename_i heq
      rw [heq] at hplace
      exact hplace
    · rename_i heq
      rw [heq] at hplace
      exact hplace

/-- A new entry is added, on the slots there were or on twice as many, or it is refused. Under a
policy that grows, the table is below three quarters afterwards if the slots are those there were. -/
theorem insertNew_sizes (hw : t.WellFormed) (available : Allocator) (policy : ResizePolicy)
    (hash : UInt32) (item : α) :
    (∃ i u, t.insertNew available policy hash item = ⟨.ok i, u⟩ ∧ u.size = t.size + 1 ∧
      ((u.capacity = t.capacity ∧ (policy.grows = true → 4 * u.size < 3 * u.capacity)) ∨
        Doubled t u)) ∨
    ∃ e u, t.insertNew available policy hash item = ⟨.error e, u⟩ ∧
      Refusal available policy t.size t.capacity e ∧ u.size = t.size ∧
      (u.capacity = t.capacity ∨ Doubled t u) := by
  rcases insertNew_cases hw available policy hash item with ⟨i, u, hu, hwu, hcap, hcontents⟩ |
    ⟨e, u, hu, hre, hrefusal⟩
  · have hsize : u.size = t.size + 1 := by
      rw [hwu.size_eq_card, hcontents, Multiset.card_cons, hw.size_eq_card]
    refine Or.inl ⟨i, u, hu, hsize, ?_⟩
    unfold slotsFor at hcap
    split at hcap
    · rename_i hgrow
      -- The doubled number is a count, so growth was decided on the exact products.
      have hlimit : t.capacity * 2 < Count.limit := lt_limit_of_insertNew hw hgrow hu
      obtain ⟨-, hload⟩ :=
        (adjustmentFor_eq_grow_iff (Count.mul_four_le_limit hw.capacity_eq hlimit)).1 hgrow
      exact Or.inr ⟨by omega, by omega, by omega⟩
    · rename_i hkeep
      refine Or.inl ⟨hcap, fun hgrows => ?_⟩
      rw [hsize, hcap]
      exact four_mul_lt_of_ne_grow hgrows hkeep
  · refine Or.inr ⟨e, u, hu, hrefusal, hre.size_eq hw, ?_⟩
    unfold insertNew at hu
    rcases makeRoom_cases hw available policy with ⟨v, hv, hrev, hcapv, hkeep⟩ | ⟨e', v, hv, -⟩
    · -- Room was made and the entry refused all the same, so the table may not grow.
      rw [hv, Outcome.andThen_ok] at hu
      have hstay : u.capacity = v.capacity := by
        have hput := capacity_put v ⟨hash, item⟩
        rwa [hu] at hput
      have hpolicy : policy.grows = false := by
        by_contra hgrows
        have hroom := lt_of_adjustment_ne_grow (Bool.eq_true_of_not_eq_false hgrows) hkeep
        obtain ⟨i, w, hput, -⟩ := put_spec hrev.wellFormed (by omega) ⟨hash, item⟩
        rw [hput] at hu
        cases hu
      refine Or.inl ?_
      rw [hstay, hcapv, slotsFor, if_neg]
      intro hgrow
      rw [(satMul_le_of_grow hgrow).1] at hpolicy
      cases hpolicy
    · rw [hv, Outcome.andThen_error] at hu
      obtain ⟨-, rfl⟩ := Outcome.mk.inj hu
      exact capacity_makeRoom_of_error hw hv

/-- An insertion replaces an item, adds an entry, on the slots there were or on twice as many, or is
refused. -/
theorem insert_sizes (hw : t.WellFormed) (available : Allocator) (policy : ResizePolicy)
    (hash : UInt32) (item : α) (eq : α → Bool) :
    (∃ old u, t.insert available policy hash item eq = ⟨.ok (some old), u⟩ ∧ u.size = t.size ∧
      u.capacity = t.capacity) ∨
    (∃ u, t.insert available policy hash item eq = ⟨.ok none, u⟩ ∧ u.size = t.size + 1 ∧
      ((u.capacity = t.capacity ∧ (policy.grows = true → 4 * u.size < 3 * u.capacity)) ∨
        Doubled t u)) ∨
    ∃ e u, t.insert available policy hash item eq = ⟨.error e, u⟩ ∧
      Refusal available policy t.size t.capacity e ∧ u.size = t.size ∧
      (u.capacity = t.capacity ∨ Doubled t u) := by
  rcases t.exists_selects_or hash eq with ⟨index, slot, hselect⟩ | hmiss
  · exact Or.inl ⟨_, _, hselect.insert_eq available policy item, rfl, Slots.capacity_set ..⟩
  · rw [insert_of_search_none hmiss]
    rcases insertNew_sizes hw available policy hash item with ⟨i, u, hu, hsizes⟩ |
      ⟨e, u, hu, hsizes⟩
    · rw [hu, Outcome.andThen_ok]
      exact Or.inr (Or.inl ⟨u, rfl, hsizes⟩)
    · rw [hu, Outcome.andThen_error]
      exact Or.inr (Or.inr ⟨e, u, rfl, hsizes⟩)

/-! ## Removal -/

/-- What it means that a removal has made `u` of `t` by halving the slots. -/
structure Halved (t u : Table α) : Prop where
  /-- There are half the slots. -/
  capacity_eq : 2 * u.capacity = t.capacity
  /-- There are at least four slots. -/
  four_le : 4 ≤ u.capacity
  /-- At most two fifths of them are taken. -/
  load : 5 * u.size ≤ 2 * u.capacity

/-- Halving a table that is to shrink succeeds if the slots can be obtained. -/
theorem capacity_resize_shrink (hw : t.WellFormed) (available : Allocator)
    (hmin : minCapacity < t.capacity) (hroom : t.size < t.capacity / 2) :
    (t.resize available .shrink).state.capacity
      = if available (t.capacity / 2) then t.capacity / 2 else t.capacity := by
  obtain ⟨hpow, hhalf, htwice⟩ := half_spec hw.capacity_eq hmin
  rw [resize, Nat.max_eq_left hhalf]
  rcases resizeTo_cases hw available hpow with ⟨hsame, -⟩ | ⟨-, hfew, -⟩ | ⟨-, -, -, hno, heq⟩ |
    ⟨-, -, -, hyes, v, heq, -, hcap, -⟩
  · unfold minCapacity at hmin
    omega
  · omega
  · rw [heq, hno]
    rfl
  · rw [heq, hyes]
    exact hcap

/-- Taking out the entry selected leaves as many slots as there were, and one entry fewer. -/
theorem Selects.eraseAt_sizes {index : ℕ} {slot : Slot α} (h : t.Selects hash eq index slot)
    (hw : t.WellFormed) : (t.eraseAt index).2.WellFormed ∧
      (t.eraseAt index).2.capacity = t.capacity ∧ (t.eraseAt index).2.size + 1 = t.size := by
  obtain ⟨v, herase, hwv, hslots, hcontents⟩ := hw.eraseAt h.get
  have hcap : v.capacity = t.capacity := by
    unfold capacity
    rw [hslots, Slots.capacity_erase]
  have hsize : v.size + 1 = t.size := by
    rw [hwv.size_eq_card, hw.size_eq_card, ← hcontents, Multiset.card_cons]
  rw [herase]
  exact ⟨hwv, hcap, hsize⟩

/-- A removal is refused and changes nothing, or takes one entry out. The slots stay, unless the
table is to shrink and half of them can be obtained, and then they are halved. -/
theorem remove_sizes (hw : t.WellFormed) (hlimit : t.capacity < Count.limit)
    (available : Allocator) (policy : ResizePolicy) (hash : UInt32) (eq : α → Bool) :
    t.remove available policy hash eq = ⟨.error .notFound, t⟩ ∨
    ∃ item u, t.remove available policy hash eq = ⟨.ok item, u⟩ ∧ u.size + 1 = t.size ∧
      ((u.capacity = t.capacity ∧
          (t.adjustment (t.size - 1) policy = .shrink → available (t.capacity / 2) = false)) ∨
        (policy.shrinks = true ∧ Halved t u)) := by
  rcases t.exists_selects_or hash eq with ⟨index, slot, hselect⟩ | hmiss
  · obtain ⟨hwv, hcap, hsize⟩ := hselect.eraseAt_sizes hw
    refine Or.inr ⟨slot.item, _, hselect.remove_eq hw available policy, ?_⟩
    generalize (t.eraseAt index).2 = v at hwv hcap hsize ⊢
    by_cases hshrink : t.adjustment (t.size - 1) policy = .shrink
    · obtain ⟨hpolicy, hmin, hload⟩ :=
        (adjustmentFor_eq_shrink_iff (Count.lt_largest hw.capacity_eq hlimit)).1 hshrink
      obtain ⟨-, hhalf, htwice⟩ : _ ∧ 4 ≤ t.capacity / 2 ∧ _ := half_spec hw.capacity_eq hmin
      have hroom : v.size < v.capacity / 2 := by
        rw [hcap]
        omega
      have hhalve := capacity_resize_shrink hwv available (hcap ▸ hmin) hroom
      have hkept := (rehash_resize hwv available .shrink).size_eq hwv
      rw [hcap] at hhalve
      rw [if_pos hshrink]
      refine ⟨by omega, ?_⟩
      split at hhalve
      · exact Or.inr ⟨hpolicy, by omega, by omega, by omega⟩
      · rename_i hrefused
        exact Or.inl ⟨hhalve, fun _ => Bool.eq_false_of_not_eq_true hrefused⟩
    · rw [if_neg hshrink]
      exact ⟨hsize, Or.inl ⟨hcap, fun h => absurd h hshrink⟩⟩
  · exact Or.inl (remove_of_search_none hmiss available policy)

/-! ## Reserving, shrinking to fit, and walks -/

/-- A reservation goes up to the slots that fit, if they are more, or is refused. -/
theorem reserve_sizes (hw : t.WellFormed) (available : Allocator) (additional : ℕ) :
    (∃ u, t.reserve available additional = ⟨.ok (), u⟩ ∧ u.size = t.size ∧
      u.capacity = max t.capacity (fitting (t.size + additional)) ∧
      fitting (t.size + additional) < Count.limit) ∨
    ∃ n u, t.reserve available additional = ⟨.error (.allocation n), u⟩ ∧ u.size = t.size ∧
      u.capacity = t.capacity := by
  rcases reserve_cases hw available additional with ⟨-, heq⟩ |
    ⟨n, hn, ⟨-, -, heq⟩ | ⟨-, u, heq, hre, hcap⟩⟩
  · exact Or.inr ⟨_, t, heq, rfl, rfl⟩
  · exact Or.inr ⟨n, _, heq, rfl, rfl⟩
  · obtain ⟨count, hcount, hfit⟩ := Option.bind_eq_some_iff.1 hn
    obtain ⟨-, rfl⟩ := Count.add?_eq_some_iff.1 hcount
    obtain ⟨rfl, hlt⟩ := eq_fitting_of_fittingCapacity hfit
    exact Or.inl ⟨u, heq, hre.size_eq hw, hcap, hlt⟩

/-- Shrinking to fit goes down to the slots that fit, or leaves them. -/
theorem shrinkToFit_sizes (hw : t.WellFormed) (available : Allocator) :
    (t.shrinkToFit available).size = t.size ∧
      ((t.shrinkToFit available).capacity = t.capacity ∨
        ((t.shrinkToFit available).capacity = fitting t.size ∧ fitting t.size < t.capacity)) := by
  refine ⟨(rehash_shrinkToFit hw available).size_eq hw, ?_⟩
  unfold shrinkToFit
  split
  · exact Or.inl rfl
  · rename_i capacity hfit
    have hpow := isPowerOfTwo_fittingCapacity hfit
    obtain ⟨rfl, -⟩ := eq_fitting_of_fittingCapacity hfit
    split
    · rename_i hless
      exact (capacity_resizeTo_or hw available hpow).imp_right fun heq => ⟨heq, hless⟩
    · exact Or.inl rfl

/-- Visits keep no more entries than they come to. -/
theorem length_kept_le {σ : Type v} (visit : α → σ → Verdict α × σ) (l : List (Slot α))
    (state : σ) : (visitAll visit l state).kept.length ≤ l.length := by
  induction l generalizing state with
  | nil => exact Nat.le_refl 0
  | cons slot rest ih =>
    have hrest := ih (visit slot.item state).2
    cases hkeep : (visit slot.item state).1.keep with
    | true =>
      rw [visitAll_cons_of_keep hkeep]
      exact Nat.succ_le_succ hrest
    | false =>
      rw [visitAll_cons_of_not_keep hkeep]
      exact hrest.trans (Nat.le_succ _)

/-- Keeping some of the entries leaves no more of them. -/
theorem size_retain_le {σ : Type v} (hw : t.WellFormed) (visit : α → σ → Verdict α × σ)
    (state : σ) : (t.retain visit state).table.size ≤ t.size := by
  have hvisits := retain_spec hw visit state
  have hkept := length_kept_le visit t.visitOrder state
  rw [hvisits.wellFormed.size_eq_card, hvisits.contents, zero_add, Multiset.coe_card,
    hw.size_eq_card, ← coe_visitOrder hw, Multiset.coe_card]
  exact hkept

/-! ## The number of slots is a count -/

/-- A new table has no entries. -/
theorem size_withCapacity {available : Allocator} {n : ℕ}
    (h : withCapacity available n = .ok t) : t.size = 0 := by
  rw [(wellFormed_withCapacity h).size_eq_card, contents_withCapacity h, Multiset.card_zero]

/-- A new table has a number of slots that is a count. -/
theorem capacity_withCapacity_lt {available : Allocator} {n : ℕ}
    (h : withCapacity available n = .ok t) : t.capacity < Count.limit := by
  unfold withCapacity at h
  split at h
  · cases h
  · rename_i capacity hround
    split at h
    · obtain rfl := Except.ok.inj h
      unfold Count.ceilPowerOfTwo? at hround
      split at hround
      · obtain rfl := Option.some.inj hround
        rwa [capacity_vacant]
      · cases hround
    · cases h

/-- Doubling or halving the slots leaves a count. -/
theorem capacity_resize_lt (hw : t.WellFormed) (h : t.capacity < Count.limit)
    (available : Allocator) (adjustment : Adjustment) :
    (t.resize available adjustment).state.capacity < Count.limit := by
  cases adjustment with
  | grow =>
    rcases resize_grow_cases hw available with ⟨v, hv, -, hcap, hlimit⟩ | ⟨v, e, hv, -⟩
    · rw [hv]
      exact hcap.trans_lt hlimit
    · rw [capacity_resize_grow_of_error hw (congrArg Outcome.answer hv)]
      exact h
  | shrink =>
    have hhalf : max (t.capacity / 2) minCapacity ≤ t.capacity :=
      Nat.max_le.2 ⟨Nat.div_le_self .., hw.minCapacity_le⟩
    rcases capacity_resizeTo_or hw available (isPowerOfTwo_half hw.capacity_eq) with heq | heq
    · exact heq.trans_lt h
    · exact heq.trans_lt (hhalf.trans_lt h)
  | keep => exact h

/-- An insertion leaves a count. -/
theorem capacity_insert_lt (hw : t.WellFormed) (h : t.capacity < Count.limit)
    (available : Allocator) (policy : ResizePolicy) (hash : UInt32) (item : α) (eq : α → Bool) :
    (t.insert available policy hash item eq).state.capacity < Count.limit := by
  rcases insert_sizes hw available policy hash item eq with ⟨old, u, heq, -, hcap⟩ |
    ⟨u, heq, -, ⟨hcap, -⟩ | hdouble⟩ | ⟨e, u, heq, -, -, hcap | hdouble⟩
  · rw [heq]
    exact hcap.trans_lt h
  · rw [heq]
    exact hcap.trans_lt h
  · rw [heq]
    exact hdouble.lt_limit
  · rw [heq]
    exact hcap.trans_lt h
  · rw [heq]
    exact hdouble.lt_limit

/-- No call leads beyond the counts. -/
theorem Step.capacity_lt_limit (hstep : Step t u) (hw : t.WellFormed)
    (h : t.capacity < Count.limit) : u.capacity < Count.limit := by
  cases hstep with
  | insert _ available policy hash item eq =>
    exact capacity_insert_lt hw h available policy hash item eq
  | update _ hash eq f =>
    rcases t.exists_selects_or hash eq with ⟨index, slot, hselect⟩ | hmiss
    · rw [hselect.update?_eq]
      exact (Slots.capacity_set ..).trans_lt h
    · rw [update?_of_search_none hmiss]
      exact h
  | remove _ available policy hash eq =>
    rcases remove_sizes hw h available policy hash eq with heq |
      ⟨item, v, heq, -, ⟨hcap, -⟩ | ⟨-, hhalve⟩⟩
    · rw [heq]
      exact h
    · rw [heq]
      exact hcap.trans_lt h
    · have htwice := hhalve.capacity_eq
      rw [heq]
      dsimp only
      omega
  | resize _ available adjustment => exact capacity_resize_lt hw h available adjustment
  | reserve _ available additional =>
    rcases reserve_sizes hw available additional with ⟨v, heq, -, hcap, hlt⟩ |
      ⟨n, v, heq, -, hcap⟩
    · rw [heq, hcap]
      exact Nat.max_lt.2 ⟨h, hlt⟩
    · rw [heq, hcap]
      exact h
  | shrinkToFit _ available =>
    rcases (shrinkToFit_sizes hw available).2 with hcap | ⟨hcap, hless⟩
    · exact hcap.trans_lt h
    · exact hcap.trans_lt (hless.trans h)
  | retain _ visit state => exact (retain_spec hw visit state).capacity_eq.trans_lt h
  | clear => exact (capacity_clear t).trans_lt h
  | drain => exact (capacity_clear t).trans_lt h
  | copy => exact h
  | mapFirst _ n f =>
    rw [mapFirst_eq_mapEach]
    exact (sameHashes_mapEach t _).capacity.trans_lt h

/-- In every table that comes about the number of slots is a count. -/
theorem Reachable.capacity_lt_limit (h : t.Reachable) : t.capacity < Count.limit := by
  induction h with
  | empty => exact (capacity_vacant minCapacity).trans_lt (by decide)
  | withCapacity h => exact capacity_withCapacity_lt h
  | step ht hstep ih => exact hstep.capacity_lt_limit ht.wellFormed ih

end Table

end OpenAddressing
