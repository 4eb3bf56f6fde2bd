import OpenAddressing.Proofs.Table.Atomicity
import OpenAddressing.Proofs.Table.Lookup
import OpenAddressing.Proofs.Table.Thresholds

/-!
# When the insertion of a new entry grows the table, and when it fails

The slots of a table are an array, so there are fewer than `2 ^ 63` of them (`Addressed`). On so
many slots the products that decide on growth do not saturate, and growth is due exactly from three
quarters on (`Addressed.adjustment_eq_grow_iff`). The loop that makes room then comes to a single
doubling, however many turns it is allowed (`growFrom_of_grow`): after it one more entry is below
three quarters, also in a table that was filled completely under another policy.

What follows the loop is the check for a vacant slot, which only a table that may not grow can fail
(`insertNew_of_full`), and the search for one, which ends at it. `AddsExactly` puts the outcomes
together.
-/

namespace OpenAddressing

universe u

namespace Table

variable {α : Type u} {t u : Table α} {available : Allocator} {policy : ResizePolicy}
  {hash : UInt32} {eq : α → Bool}

/-- The slots of the table have addresses, as those of every array do: it has fewer than `2 ^ 63`
bytes, and a slot takes one at least. Of the powers of two that are counts this leaves out one,
`2 ^ 63`, which no array reaches. -/
def Addressed (t : Table α) : Prop := t.capacity < 2 ^ 63

/-- The table may grow, and with one more entry at least three quarters of its slots would be
taken. -/
def GrowthDue (t : Table α) (policy : ResizePolicy) : Prop :=
  policy ≠ .disabled ∧ 3 * t.capacity ≤ 4 * (t.size + 1)

namespace Addressed

/-- A power of two of slots that have addresses is at most a quarter of the limit. -/
theorem mul_four_le_limit (h : t.Addressed) (hw : t.WellFormed) :
    t.capacity * 4 ≤ Count.limit := by
  have htwice : t.capacity * 2 ≤ 2 ^ 63 := Count.mul_two_le_of_lt hw.capacity_eq ⟨63, rfl⟩ h
  rw [Count.limit_eq]
  omega

/-- A table whose slots have addresses is to grow for one more entry exactly when growth is due. -/
theorem adjustment_eq_grow_iff (h : t.Addressed) (hw : t.WellFormed) :
    t.adjustment (t.size + 1) policy = .grow ↔ t.GrowthDue policy := by
  have hgrows : policy.grows = true ↔ policy ≠ .disabled := by cases policy <;> decide
  rw [adjustment, adjustmentFor_eq_grow_iff (h.mul_four_le_limit hw), hgrows]
  rfl

/-- It doubles its slots if they can be obtained, and is left as it was otherwise. -/
theorem resize_grow_cases (h : t.Addressed) (hw : t.WellFormed) (hidle : t.resizing = false)
    (available : Allocator) :
    (available (2 * t.capacity) = false ∧
      t.resize available .grow = ⟨.error (.allocation (2 * t.capacity)), t⟩) ∨
    (available (2 * t.capacity) = true ∧
      ∃ u, t.resize available .grow = ⟨.ok (), u⟩ ∧ Rehash t u ∧ u.capacity = 2 * t.capacity) := by
  have hlimit := h.mul_four_le_limit hw
  have hpos : 0 < t.capacity := hw.capacity_pos
  rw [Nat.mul_comm 2]
  rcases Table.resize_grow_cases hw available with ⟨u, hu, hre, hcap, -⟩ |
    ⟨u, e, hu, -, ⟨rfl, -, hno⟩ | ⟨-, hmany⟩⟩
  · exact Or.inr ⟨available_of_grow hw (by rw [hu]), u, hu, hre, hcap⟩
  · exact Or.inl ⟨hno, resize_eq_of_error hw hidle (congrArg Outcome.answer hu)⟩
  · -- Twice the slots are a count.
    omega

end Addressed

/-! ## Adding an entry -/

/-- A table that need not grow places a new entry where it is, whatever slots can be obtained. -/
theorem insertNew_of_ne_grow (h : t.adjustment (t.size + 1) policy ≠ .grow) (available : Allocator)
    (hash : UInt32) (item : α) :
    t.insertNew available policy hash item = t.put ⟨hash, item⟩ := by
  rw [insertNew, makeRoom, growFrom_of_ne_grow h, Outcome.andThen_ok]

/-- A table that is to grow doubles its slots and then places the new entry. -/
theorem insertNew_of_grow (hw : t.WellFormed) (haddr : available.Addressable)
    (h : t.adjustment (t.size + 1) policy = .grow) (hash : UInt32) (item : α) :
    t.insertNew available policy hash item
      = (t.resize available .grow).andThen fun _ t => t.put ⟨hash, item⟩ := by
  rw [insertNew, makeRoom, growFrom_of_grow hw haddr h]

/-- A full table that need not grow refuses a new entry. -/
theorem insertNew_of_full (h : t.adjustment (t.size + 1) policy ≠ .grow)
    (hfull : t.size = t.capacity) (available : Allocator) (hash : UInt32) (item : α) :
    t.insertNew available policy hash item = ⟨.error (.capacity t.capacity), t⟩ := by
  have hmore : t.slots.capacity < t.size + 1 := Nat.lt_succ_of_le hfull.ge
  rw [insertNew_of_ne_grow h]
  simp only [put, if_pos hmore]
  rfl

/-- A new entry that is placed is one entry more. -/
theorem size_of_put (hw : t.WellFormed) (hroom : t.size < t.capacity) {slot : Slot α} {i : ℕ}
    (h : t.put slot = ⟨.ok i, u⟩) : u.size = t.size + 1 := by
  obtain ⟨j, v, hput, hwv, -, hcontents⟩ := put_spec hw hroom slot
  rw [h] at hput
  obtain rfl := (Outcome.mk.inj hput).2
  rw [hwv.size_eq_card, hcontents, Multiset.card_cons, hw.size_eq_card]

/-- What it means that `u` is `t` with a new entry, on twice the slots if growth was due. -/
structure Added (t : Table α) (policy : ResizePolicy) (slot : Slot α) (u : Table α) : Prop where
  /-- The entry is added, and nothing else. -/
  contents : u.contents = slot ::ₘ t.contents
  /-- There is one entry more. -/
  size : u.size = t.size + 1
  /-- If growth was due, there are twice the slots. -/
  doubled : t.GrowthDue policy → u.capacity = 2 * t.capacity
  /-- Otherwise there are as many as before. -/
  kept : ¬ t.GrowthDue policy → u.capacity = t.capacity

/-- The slots have addresses afterwards if they did before and growth led to no others. -/
theorem Added.addressed {slot : Slot α} (h : t.Added policy slot u) (ht : t.Addressed)
    (hdouble : t.GrowthDue policy → 2 * t.capacity < 2 ^ 63) : u.Addressed := by
  unfold Addressed
  by_cases hdue : t.GrowthDue policy
  · rw [h.doubled hdue]
    exact hdouble hdue
  · rw [h.kept hdue]
    exact ht

/-- A table adds the new entry that is placed once its own entries lie on the slots they are to. -/
theorem exists_added_put (hw : t.WellFormed) (hre : Rehash t u) (hroom : u.size < u.capacity)
    (hdoubled : t.GrowthDue policy → u.capacity = 2 * t.capacity)
    (hkept : ¬ t.GrowthDue policy → u.capacity = t.capacity) (slot : Slot α) :
    ∃ i v, u.put slot = ⟨.ok i, v⟩ ∧ t.Added policy slot v := by
  obtain ⟨i, v, hput, -, hcap, hcontents⟩ := put_spec hre.wellFormed hroom slot
  have hsize := size_of_put hre.wellFormed hroom hput
  refine ⟨i, v, hput, ?_, ?_, ?_, ?_⟩
  · rw [hcontents, hre.contents]
  · rw [hsize, hre.size_eq hw]
  · rwa [hcap]
  · rwa [hcap]

/-- Why a table refuses a new entry: it may not grow and all its slots are taken, or growth is due
and twice the slots cannot be obtained. -/
def Refuses (t : Table α) (available : Allocator) (policy : ResizePolicy) (e : Error) : Prop :=
  (policy = .disabled ∧ t.size = t.capacity ∧ e = .capacity t.capacity) ∨
    (t.GrowthDue policy ∧ available (2 * t.capacity) = false ∧ e = .allocation (2 * t.capacity))

/-- There is at most one reason. -/
theorem Refuses.unique {e e' : Error} (h : t.Refuses available policy e)
    (h' : t.Refuses available policy e') : e = e' := by
  rcases h with ⟨hpolicy, -, rfl⟩ | ⟨hdue, -, rfl⟩
  · rcases h' with ⟨-, -, rfl⟩ | ⟨hdue, -⟩
    · rfl
    · exact absurd hpolicy hdue.1
  · rcases h' with ⟨hpolicy, -⟩ | ⟨-, -, rfl⟩
    · exact absurd hpolicy hdue.1
    · rfl

/-- If growth is due and the slots can be obtained there is none. -/
theorem not_refuses_of_growthDue (hdue : t.GrowthDue policy)
    (hyes : available (2 * t.capacity) = true) (e : Error) : ¬ t.Refuses available policy e := by
  rintro (⟨hpolicy, -⟩ | ⟨-, hno, -⟩)
  · exact hdue.1 hpolicy
  · exact Bool.false_ne_true (hno.symm.trans hyes)

/-- Nor is there one if growth is not due and a slot is vacant. -/
theorem not_refuses_of_not_growthDue (hdue : ¬ t.GrowthDue policy) (hroom : t.size ≠ t.capacity)
    (e : Error) : ¬ t.Refuses available policy e := by
  rintro (⟨-, hfull, -⟩ | ⟨h, -⟩)
  · exact hroom hfull
  · exact hdue h

/-- A new entry is refused for one of the two reasons, and then the table is left as it was, or
there is no reason to refuse it and it is added. -/
theorem Addressed.insertNew_cases (ht : t.Addressed) (hw : t.WellFormed)
    (hidle : t.resizing = false) (haddr : available.Addressable) (policy : ResizePolicy)
    (hash : UInt32) (item : α) :
    (∃ e, t.Refuses available policy e ∧ t.insertNew available policy hash item = ⟨.error e, t⟩) ∨
    ((∀ e, ¬ t.Refuses available policy e) ∧ ∃ i u,
      t.insertNew available policy hash item = ⟨.ok i, u⟩ ∧ t.Added policy ⟨hash, item⟩ u) := by
  have hsize := hw.size_le
  have hpos : 0 < t.capacity := hw.capacity_pos
  have hiff : t.adjustment (t.size + 1) policy = .grow ↔ t.GrowthDue policy :=
    ht.adjustment_eq_grow_iff hw
  by_cases hdue : t.GrowthDue policy
  · rw [insertNew_of_grow hw haddr (hiff.2 hdue)]
    rcases ht.resize_grow_cases hw hidle available with ⟨hno, hresize⟩ |
      ⟨hyes, v, hresize, hre, hcap⟩
    · rw [hresize]
      exact Or.inl ⟨_, Or.inr ⟨hdue, hno, rfl⟩, rfl⟩
    · -- Twice the slots leave one of them vacant.
      have hroom : v.size < v.capacity := by
        rw [hre.size_eq hw, hcap]
        omega
      rw [hresize, Outcome.andThen_ok]
      exact Or.inr ⟨not_refuses_of_growthDue hdue hyes,
        exists_added_put hw hre hroom (fun _ => hcap) (fun hnot => absurd hdue hnot) _⟩
  · have hkeep := mt hiff.1 hdue
    by_cases hfull : t.size = t.capacity
    · -- A table that may grow does so before all its slots are taken.
      have hpolicy : policy = .disabled := by
        by_contra hne
        exact hdue ⟨hne, by omega⟩
      exact Or.inl ⟨_, Or.inl ⟨hpolicy, hfull, rfl⟩, insertNew_of_full hkeep hfull ..⟩
    · -- A vacant slot takes the entry, however the table came to be as full as it is.
      rw [insertNew_of_ne_grow hkeep]
      exact Or.inr ⟨not_refuses_of_not_growthDue hdue hfull,
        exists_added_put hw (.refl hw) (by omega) (fun h => absurd h hdue) (fun _ => rfl) _⟩

/-- What the insertion of an entry that no stored one matches owes a table. -/
structure AddsExactly (t : Table α) (available : Allocator) (policy : ResizePolicy) (hash : UInt32)
    (item : α) (eq : α → Bool) : Prop where
  /-- It fails with an error exactly when that is the reason to refuse the entry, and for no other
  one. -/
  error_iff : ∀ e, (t.insert available policy hash item eq).answer = .error e ↔
    t.Refuses available policy e
  /-- If it fails it changes nothing. -/
  unchanged : ∀ e, (t.insert available policy hash item eq).answer = .error e →
    (t.insert available policy hash item eq).state = t
  /-- Otherwise it answers no old item and adds the entry, on twice the slots if growth was due. -/
  added : ∀ old, (t.insert available policy hash item eq).answer = .ok old →
    old = none ∧ t.Added policy ⟨hash, item⟩ (t.insert available policy hash item eq).state
  /-- If growth is due the loop that makes room comes to one doubling, however many more turns it
  has left. -/
  one_turn : t.GrowthDue policy → ∀ left,
    growFrom available policy (left + 1) t = t.resize available .grow
  /-- The slots have addresses afterwards as before. -/
  addressed : (t.insert available policy hash item eq).state.Addressed

/-- A new entry goes into a table that comes about, completely full ones included, with the slots
doubled once or not at all, or is refused for the one reason there is. -/
theorem addsExactly_of_reachable (h : t.Reachable) (ht : t.Addressed)
    (haddr : available.Addressable) (hnew : ¬ t.Matches hash eq) (policy : ResizePolicy)
    (item : α) : t.AddsExactly available policy hash item eq := by
  have hw := h.wellFormed
  have hone : t.GrowthDue policy → ∀ left,
      growFrom available policy (left + 1) t = t.resize available .grow := fun hdue =>
    growFrom_of_grow hw haddr ((ht.adjustment_eq_grow_iff hw).2 hdue)
  have hmiss := search_eq_none_of_not_matches hw hnew
  have hinsert := insert_of_search_none hmiss available policy item
  rcases ht.insertNew_cases hw h.resizing_eq haddr policy hash item with ⟨e, hrefuses, heq⟩ |
    ⟨haccepts, i, u, heq, hadded⟩
  · rw [heq, Outcome.andThen_error] at hinsert
    refine ⟨fun e' => ?_, fun e' _ => by rw [hinsert], fun old hold => ?_, hone, ?_⟩
    · rw [hinsert]
      exact ⟨fun heq' => Except.error.inj heq' ▸ hrefuses, fun h' => by rw [hrefuses.unique h']⟩
    · rw [hinsert] at hold
      cases hold
    · rw [hinsert]
      exact ht
  · rw [heq, Outcome.andThen_ok] at hinsert
    refine ⟨fun e' => ?_, fun e' he' => ?_, fun old hold => ?_, hone, ?_⟩
    · rw [hinsert]
      exact ⟨fun heq' => (by cases heq'), fun h' => absurd h' (haccepts e')⟩
    · rw [hinsert] at he'
      cases he'
    · rw [hinsert] at hold ⊢
      exact ⟨(Except.ok.inj hold).symm, hadded⟩
    · -- Growth was not refused, so twice the slots could be obtained.
      have hno : t.GrowthDue policy → available (2 * t.capacity) ≠ false := fun hdue hno =>
        haccepts _ (Or.inr ⟨hdue, hno, rfl⟩)
      rw [hinsert]
      exact hadded.addressed ht fun hdue => haddr _ (Bool.eq_true_of_not_eq_false (hno hdue))

/-- A table that was filled completely under a policy that does not grow. A fifth entry is refused
there, and under the other policies it is added on twice the slots or refused when these cannot be
obtained. -/
theorem addsExactly_of_full : ∃ t : Table ℕ, t.Reachable ∧ t.Addressed ∧ t.size = t.capacity ∧
    ¬ t.Matches 3 (· == 14) ∧ Allocator.Addressable (· < 2 ^ 63) ∧
    Allocator.Addressable (fun _ => false) ∧
    t.AddsExactly (· < 2 ^ 63) .disabled 3 14 (· == 14) ∧
    (t.insert (· < 2 ^ 63) .disabled 3 14 (· == 14)).answer = .error (.capacity 4) ∧
    t.AddsExactly (· < 2 ^ 63) .growOnly 3 14 (· == 14) ∧
    (t.insert (· < 2 ^ 63) .growOnly 3 14 (· == 14)).state.capacity = 8 ∧
    t.AddsExactly (fun _ => false) .growAndShrink 3 14 (· == 14) ∧
    (t.insert (fun _ => false) .growAndShrink 3 14 (· == 14)).answer = .error (.allocation 8) := by
  have hreach : ([(3, 10), (3, 11), (3, 12), (0, 13)].foldl (fun t p =>
      (t.insert (fun _ => true) .disabled p.1 p.2 (· == p.2)).state) (empty : Table ℕ)).Reachable :=
    .step (.step (.step (.step .empty (.insert _ _ _ 3 _ _)) (.insert _ _ _ 3 _ _))
      (.insert _ _ _ 3 _ _)) (.insert _ _ _ 0 _ _)
  have hnew : ¬ Matches _ 3 (· == 14) := (isSome_find?_iff hreach.wellFormed).not.1 (by decide)
  have hbelow : Allocator.Addressable (· < 2 ^ 63) := fun n hn => of_decide_eq_true hn
  have hnone : Allocator.Addressable (fun _ => false) := fun _ hn => absurd hn Bool.false_ne_true
  exact ⟨_, hreach, show _ < _ by decide, by decide, hnew, hbelow, hnone,
    addsExactly_of_reachable hreach (show _ < _ by decide) hbelow hnew _ _, by decide,
    addsExactly_of_reachable hreach (show _ < _ by decide) hbelow hnew _ _, by decide +kernel,
    addsExactly_of_reachable hreach (show _ < _ by decide) hnone hnew _ _, by decide⟩

end Table

end OpenAddressing
