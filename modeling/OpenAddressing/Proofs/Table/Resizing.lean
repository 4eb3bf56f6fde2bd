import OpenAddressing.Proofs.Table.Lookup
import OpenAddressing.Proofs.Table.Sizes

/-!
# Where a change of the slots leads

Growing, shrinking, reserving and shrinking to fit each go to a number of slots that follows from
the numbers of entries and slots, or leave the table as it was. `ResizesExactly` gives the number
for each of them, when each succeeds, and when shrinking is refused for want of room; shrinking to
fit never is, since the slots that fit are more than the entries.

A rehash places the entries in another order than they came in, so a lookup that several entries
match may come to another one afterwards. What at most one entry matches is found as before
(`SameEntries`): looking up finds an entry exactly when one matches, in the old table and in the
new.
-/

namespace OpenAddressing

universe u

namespace Table

variable {α : Type u} {t u : Table α} {hash : UInt32} {eq : α → Bool}

/-! ## Lookups that at most one entry matches -/

/-- At most one stored entry has this hash and an item that is accepted. -/
def MatchesOnce (t : Table α) (hash : UInt32) (eq : α → Bool) : Prop :=
  t.contents.countP (fun slot => slot.hash = hash ∧ eq slot.item = true) ≤ 1

instance (t : Table α) (hash : UInt32) (eq : α → Bool) : Decidable (t.MatchesOnce hash eq) :=
  inferInstanceAs (Decidable (_ ≤ 1))

/-- Two stored entries that match are the same if at most one does. -/
theorem MatchesOnce.unique (h : t.MatchesOnce hash eq) {a b : Slot α} (ha : a ∈ t.contents)
    (hb : b ∈ t.contents) (hma : a.hash = hash ∧ eq a.item = true)
    (hmb : b.hash = hash ∧ eq b.item = true) : a = b := by
  by_contra hne
  obtain ⟨rest, hrest⟩ := Multiset.exists_cons_of_mem ha
  have hbrest : b ∈ rest := by
    rw [hrest] at hb
    exact (Multiset.mem_cons.1 hb).resolve_left (Ne.symm hne)
  have hboth := Multiset.countP_cons_of_pos
    (p := fun slot : Slot α => slot.hash = hash ∧ eq slot.item = true) rest hma
  have hpos : 0 < rest.countP (fun slot => slot.hash = hash ∧ eq slot.item = true) :=
    Multiset.countP_pos.2 ⟨b, hbrest, hmb⟩
  unfold MatchesOnce at h
  rw [hrest] at h
  omega

/-- Tables with the same entries answer alike to a lookup that at most one of these matches. -/
theorem find?_eq_of_contents_eq (hw : t.WellFormed) (hwu : u.WellFormed)
    (hcontents : u.contents = t.contents) (hone : t.MatchesOnce hash eq) :
    u.find? hash eq = t.find? hash eq := by
  have hmatches : u.Matches hash eq ↔ t.Matches hash eq := by
    unfold Matches
    rw [hcontents]
  have hsome : (u.find? hash eq).isSome = (t.find? hash eq).isSome :=
    Bool.eq_iff_iff.2 (by rw [isSome_find?_iff hwu, isSome_find?_iff hw, hmatches])
  cases ht : t.find? hash eq with
  | none =>
    rw [ht, Option.isSome_none] at hsome
    exact Option.not_isSome_iff_eq_none.1 (Bool.eq_false_iff.1 hsome)
  | some x =>
    rw [ht, Option.isSome_some] at hsome
    obtain ⟨y, hy⟩ := Option.isSome_iff_exists.1 hsome
    -- What each of the two finds is stored in both.
    obtain ⟨i, _, hx, rfl⟩ := exists_selects_of_find? ht
    obtain ⟨j, _, hz, rfl⟩ := exists_selects_of_find? hy
    have hmem : (⟨hash, y⟩ : Slot α) ∈ t.contents := hcontents ▸ hz.mem_contents hwu
    have hsame : (⟨hash, y⟩ : Slot α) = ⟨hash, x⟩ :=
      hone.unique hmem (hx.mem_contents hw) ⟨rfl, hz.accepted⟩ ⟨rfl, hx.accepted⟩
    rw [hy, (Slot.mk.inj hsame).2]

/-- What a change of the slots leaves of the entries. -/
structure SameEntries (t u : Table α) : Prop where
  /-- Each entry is stored under its hash as often as before, and no other is. -/
  contents : u.contents = t.contents
  /-- There are as many entries. -/
  size : u.size = t.size
  /-- What at most one entry matches is found, or not found, as before. -/
  find? : ∀ hash eq, t.MatchesOnce hash eq → u.find? hash eq = t.find? hash eq

/-- A rehash leaves the same entries. -/
theorem Rehash.sameEntries (h : Rehash t u) (hw : t.WellFormed) : SameEntries t u :=
  ⟨h.contents, h.size_eq hw, fun _ _ hone =>
    find?_eq_of_contents_eq hw h.wellFormed h.contents hone⟩

/-! ## The slots each change goes to -/

/-- The slots that shrinking goes to. -/
def shrunken (t : Table α) : ℕ := max (t.capacity / 2) minCapacity

/-- Shrinking does nothing to a table of the fewest slots, is refused when the entries would fill
the slots it goes to, fails when these cannot be obtained, and otherwise goes to them. -/
theorem resize_shrink_cases (hw : t.WellFormed) (available : Allocator) :
    (t.shrunken = t.capacity ∧ t.resize available .shrink = ⟨.ok (), t⟩) ∨
    (t.shrunken ≠ t.capacity ∧ t.shrunken ≤ t.size ∧
      t.resize available .shrink = ⟨.error (.capacity t.shrunken), t⟩) ∨
    (t.shrunken ≠ t.capacity ∧ t.size < t.shrunken ∧ available t.shrunken = false ∧
      t.resize available .shrink
        = ⟨.error (.allocation t.shrunken), { t with resizing := false }⟩) ∨
    (t.size < t.shrunken ∧ ∃ u, t.resize available .shrink = ⟨.ok (), u⟩ ∧ Rehash t u ∧
      u.capacity = t.shrunken) := by
  have hpow : t.shrunken.isPowerOfTwo := isPowerOfTwo_half hw.capacity_eq
  have hmin : minCapacity ≤ t.shrunken := Nat.le_max_right ..
  have hresize : t.resize available .shrink = t.resizeTo available t.shrunken := rfl
  rw [hresize]
  rcases resizeTo_cases hw available hpow with ⟨hsame, h⟩ | ⟨hne, hfew, h⟩ |
    ⟨hne, -, hroom, hno, h⟩ | ⟨-, -, hroom, -, u, h, hwu, hcap, hcontents, -⟩
  · exact Or.inl ⟨hsame, h⟩
  · exact Or.inr (Or.inl ⟨hne, by omega, h⟩)
  · exact Or.inr (Or.inr (Or.inl ⟨hne, hroom, hno, h⟩))
  · exact Or.inr (Or.inr (Or.inr ⟨hroom, u, h, ⟨hwu, hcontents⟩, hcap⟩))

/-- A table whose entries are too many for the slots that fit them to be a count has no more slots
than that. -/
theorem capacity_le_fitting_of_le (hw : t.WellFormed) (hlimit : t.capacity < Count.limit)
    (h : Count.limit ≤ t.size * 4) : t.capacity ≤ fitting t.size := by
  have hload := (fits_fitting t.size).load
  have hhalf := Count.mul_two_le_limit hw.capacity_eq hlimit
  by_contra hlt
  have htwice := Count.mul_two_le_of_lt (fits_fitting t.size).isPowerOfTwo hw.capacity_eq
    (Nat.lt_of_not_le hlt)
  omega

/-- Shrinking to fit leaves a table on no more slots than fit it, and otherwise goes to those, which
hold its entries, if they can be obtained. -/
theorem shrinkToFit_cases (hw : t.WellFormed) (hlimit : t.capacity < Count.limit)
    (available : Allocator) :
    (t.capacity ≤ fitting t.size ∧ t.shrinkToFit available = t) ∨
    (fitting t.size < t.capacity ∧
      t.shrinkToFit available = (t.resizeTo available (fitting t.size)).state ∧
      ((available (fitting t.size) = false ∧ t.resizeTo available (fitting t.size)
          = ⟨.error (.allocation (fitting t.size)), { t with resizing := false }⟩) ∨
        (available (fitting t.size) = true ∧ ∃ u,
          t.resizeTo available (fitting t.size) = ⟨.ok (), u⟩ ∧ u.capacity = fitting t.size))) := by
  have hfits := fits_fitting t.size
  have hload := hfits.load
  rcases Nat.lt_or_ge (t.size * 4) Count.limit with hcount | hcount
  · have hshrink : t.shrinkToFit available
        = if fitting t.size < t.capacity then (t.resizeTo available (fitting t.size)).state
          else t := by
      simp only [shrinkToFit, fittingCapacity?_of_lt hcount]
    rw [hshrink]
    by_cases hless : fitting t.size < t.capacity
    · refine Or.inr ⟨hless, if_pos hless, ?_⟩
      -- Below three quarters, the entries leave some of the slots vacant.
      have hfour := hfits.four_le
      rcases resizeTo_cases hw available hfits.isPowerOfTwo with ⟨hsame, -⟩ | ⟨-, hfew, -⟩ |
        ⟨-, -, -, hno, h⟩ | ⟨-, -, -, hyes, u, h, -, hcap, -⟩
      · omega
      · unfold minCapacity at hfew
        omega
      · exact Or.inl ⟨hno, h⟩
      · exact Or.inr ⟨hyes, u, h, hcap⟩
    · exact Or.inl ⟨Nat.le_of_not_lt hless, if_neg hless⟩
  · refine Or.inl ⟨capacity_le_fitting_of_le hw hlimit hcount, ?_⟩
    simp only [shrinkToFit, fittingCapacity?_of_le hcount]

/-- What the changes of the slots of a table owe it. -/
structure ResizesExactly (t : Table α) : Prop where
  /-- Growth that succeeds doubles the slots and keeps the entries. -/
  grow : ∀ available u, t.resize available .grow = ⟨.ok (), u⟩ →
    u.capacity = 2 * t.capacity ∧ SameEntries t u
  /-- It succeeds if the doubled number is a count and can be obtained. -/
  grow_ok : ∀ available, 2 * t.capacity < Count.limit → available (2 * t.capacity) = true →
    ∃ u, t.resize available .grow = ⟨.ok (), u⟩
  /-- Shrinking that succeeds halves the slots, but not below the fewest, and keeps the entries. -/
  shrink : ∀ available u, t.resize available .shrink = ⟨.ok (), u⟩ →
    u.capacity = max (t.capacity / 2) 4 ∧ SameEntries t u
  /-- It succeeds if there is room and the slots can be obtained. -/
  shrink_ok : ∀ available, t.size < max (t.capacity / 2) 4 →
    available (max (t.capacity / 2) 4) = true → ∃ u, t.resize available .shrink = ⟨.ok (), u⟩
  /-- It is refused for want of room exactly when it would change the slots and the entries would
  leave none of them vacant. -/
  shrink_refused : ∀ available n, (t.resize available .shrink).answer = .error (.capacity n) ↔
    n = max (t.capacity / 2) 4 ∧ max (t.capacity / 2) 4 ≠ t.capacity ∧
      max (t.capacity / 2) 4 ≤ t.size
  /-- The slots that fit a number of entries are the fewest that do. -/
  fitting_least : ∀ count, IsLeast
    {capacity | capacity.isPowerOfTwo ∧ 4 ≤ capacity ∧ 4 * count < 3 * capacity} (fitting count)
  /-- A reservation that succeeds goes up to the slots that fit, if they are more, and keeps the
  entries. -/
  reserve : ∀ available additional u, t.reserve available additional = ⟨.ok (), u⟩ →
    u.capacity = max t.capacity (fitting (t.size + additional)) ∧ SameEntries t u
  /-- It succeeds if the counts are large enough and the slots, where more are needed, can be
  obtained. -/
  reserve_ok : ∀ available additional, (t.size + additional) * 4 < Count.limit →
    (t.capacity < fitting (t.size + additional) →
      available (fitting (t.size + additional)) = true) →
    ∃ u, t.reserve available additional = ⟨.ok (), u⟩
  /-- Shrinking to fit goes down to the slots that fit, if they are fewer and can be obtained. -/
  shrinkToFit : ∀ available, (fitting t.size < t.capacity → available (fitting t.size) = true) →
    (t.shrinkToFit available).capacity = min t.capacity (fitting t.size)
  /-- It keeps the entries. -/
  shrinkToFit_entries : ∀ available, SameEntries t (t.shrinkToFit available)
  /-- The rehash that it comes down to is never refused for want of room. -/
  shrinkToFit_room : ∀ available, fitting t.size < t.capacity →
    t.shrinkToFit available = (t.resizeTo available (fitting t.size)).state ∧
      ∀ n, (t.resizeTo available (fitting t.size)).answer ≠ .error (.capacity n)

/-- Every table that comes about, completely full ones included, goes exactly to these slots, and
keeps its entries. -/
theorem resizesExactly_of_reachable (h : t.Reachable) : t.ResizesExactly := by
  have hw := h.wellFormed
  have hlimit := h.capacity_lt_limit
  constructor
  case grow =>
    intro available u hu
    rcases resize_grow_cases hw available with ⟨v, hv, hre, hcap, -⟩ | ⟨v, e, hv, -⟩
    · rw [hv] at hu
      obtain rfl := (Outcome.mk.inj hu).2
      exact ⟨by omega, hre.sameEntries hw⟩
    · rw [hv] at hu
      cases hu
  case grow_ok =>
    intro available hcount hyes
    rcases resize_grow_cases hw available with ⟨v, hv, -⟩ | ⟨v, e, -, -, ⟨-, -, hno⟩ | ⟨-, hle⟩⟩
    · exact ⟨v, hv⟩
    · rw [Nat.mul_comm, hyes] at hno
      cases hno
    · omega
  case shrink =>
    intro available u hu
    rcases resize_shrink_cases hw available with ⟨hsame, hv⟩ | ⟨-, -, hv⟩ | ⟨-, -, -, hv⟩ |
      ⟨-, v, hv, hre, hcap⟩
    · rw [hv] at hu
      obtain rfl := (Outcome.mk.inj hu).2
      exact ⟨hsame.symm, (Rehash.refl hw).sameEntries hw⟩
    · rw [hv] at hu
      cases hu
    · rw [hv] at hu
      cases hu
    · rw [hv] at hu
      obtain rfl := (Outcome.mk.inj hu).2
      exact ⟨hcap, hre.sameEntries hw⟩
  case shrink_ok =>
    intro available hroom hyes
    rcases resize_shrink_cases hw available with ⟨-, hv⟩ | ⟨-, hle, -⟩ | ⟨-, -, hno, -⟩ |
      ⟨-, v, hv, -⟩
    · exact ⟨t, hv⟩
    · exact absurd hroom (Nat.not_lt.2 hle)
    · exact absurd (hno.symm.trans hyes) Bool.false_ne_true
    · exact ⟨v, hv⟩
  case shrink_refused =>
    intro available n
    show _ ↔ n = t.shrunken ∧ t.shrunken ≠ t.capacity ∧ t.shrunken ≤ t.size
    rcases resize_shrink_cases hw available with ⟨hsame, hv⟩ | ⟨hne, hle, hv⟩ |
      ⟨-, hroom, -, hv⟩ | ⟨hroom, v, hv, -⟩
    · rw [hv]
      exact ⟨fun h => (by cases h), fun h => absurd hsame h.2.1⟩
    · rw [hv]
      refine ⟨fun h => ⟨?_, hne, hle⟩, fun h => by rw [h.1]⟩
      exact (Error.capacity.inj (Except.error.inj h)).symm
    · rw [hv]
      exact ⟨fun h => (by cases h), fun h => absurd hroom (Nat.not_lt.2 h.2.2)⟩
    · rw [hv]
      exact ⟨fun h => (by cases h), fun h => absurd hroom (Nat.not_lt.2 h.2.2)⟩
  case fitting_least =>
    intro count
    have hleast := isLeast_fitting count
    exact ⟨⟨hleast.1.isPowerOfTwo, hleast.1.four_le, hleast.1.load⟩, fun capacity hfits =>
      Fits.fitting_le ⟨hfits.1, hfits.2.1, hfits.2.2⟩⟩
  case reserve =>
    intro available additional u hu
    have hre := rehash_reserve hw available additional
    rcases reserve_sizes hw available additional with ⟨v, hv, -, hcap, -⟩ | ⟨n, v, hv, -⟩
    · rw [hu] at hv hre
      obtain rfl := (Outcome.mk.inj hv).2
      exact ⟨hcap, hre.sameEntries hw⟩
    · rw [hu] at hv
      cases hv
  case reserve_ok =>
    intro available additional hcount hyes
    have hfit : (Count.add? t.size additional).bind fittingCapacity?
        = some (fitting (t.size + additional)) := by
      have hadd : Count.add? t.size additional = some (t.size + additional) :=
        Count.add?_eq_some_iff.2 ⟨by omega, rfl⟩
      rw [hadd]
      exact fittingCapacity?_of_lt hcount
    rcases reserve_cases hw available additional with ⟨hnone, -⟩ |
      ⟨n, hn, ⟨hless, hno, -⟩ | ⟨-, v, hv, -⟩⟩
    · rw [hfit] at hnone
      cases hnone
    · rw [hfit] at hn
      obtain rfl := Option.some.inj hn
      exact absurd (hno.symm.trans (hyes hless)) Bool.false_ne_true
    · exact ⟨v, hv⟩
  case shrinkToFit =>
    intro available hyes
    rcases shrinkToFit_cases hw hlimit available with ⟨hle, hv⟩ |
      ⟨hless, hv, ⟨hno, -⟩ | ⟨-, v, hresize, hcap⟩⟩
    · rw [hv, Nat.min_eq_left hle]
    · exact absurd (hno.symm.trans (hyes hless)) Bool.false_ne_true
    · rw [hv, hresize, Nat.min_eq_right hless.le]
      exact hcap
  case shrinkToFit_entries =>
    intro available
    exact (rehash_shrinkToFit hw available).sameEntries hw
  case shrinkToFit_room =>
    intro available hless
    rcases shrinkToFit_cases hw hlimit available with ⟨hle, -⟩ | ⟨-, hv, hresize⟩
    · omega
    · refine ⟨hv, fun n hn => ?_⟩
      rcases hresize with ⟨-, hno⟩ | ⟨-, v, hok, -⟩
      · rw [hno] at hn
        cases hn
      · rw [hok] at hn
        cases hn

/-- A full table grows and takes a fifth entry, whose removal leaves it too full to shrink by one
half; with another entry removed, three of them fill all but one of the slots it shrinks to. -/
theorem resizesExactly_of_full : ∃ t u v : Table ℕ, t.Reachable ∧ u.Reachable ∧ v.Reachable ∧
    t.size = t.capacity ∧ t.ResizesExactly ∧
    (t.resize (fun _ => true) .grow).state.capacity = 8 ∧
    u.capacity = 8 ∧ u.size = 4 ∧ u.ResizesExactly ∧
    (u.resize (fun _ => true) .shrink).answer = .error (.capacity 4) ∧
    (u.shrinkToFit fun _ => true).capacity = 8 ∧
    v.size = 3 ∧ v.ResizesExactly ∧ v.MatchesOnce 3 (· == 12) ∧
    (v.resize (fun _ => true) .shrink).state.capacity = 4 ∧
    (v.resize (fun _ => true) .shrink).state.find? 3 (· == 12) = some 12 ∧
    (v.reserve (fun _ => true) 3).state.capacity = 16 := by
  have ht : ([(3, 10), (3, 11), (3, 12), (0, 13)].foldl (fun t p =>
      (t.insert (fun _ => true) .disabled p.1 p.2 (· == p.2)).state) (empty : Table ℕ)).Reachable :=
    .step (.step (.step (.step .empty (.insert _ _ _ 3 _ _)) (.insert _ _ _ 3 _ _))
      (.insert _ _ _ 3 _ _)) (.insert _ _ _ 0 _ _)
  have hu := ht.step (.insert _ (fun _ => true) .growOnly 7 14 (· == 14))
    |>.step (.remove _ (fun _ => true) .growOnly 3 (· == 10))
  have hv := hu.step (.remove _ (fun _ => true) .growOnly 3 (· == 11))
  exact ⟨_, _, _, ht, hu, hv, by decide, resizesExactly_of_reachable ht, by decide +kernel,
    by decide +kernel, by decide +kernel, resizesExactly_of_reachable hu, by decide +kernel,
    by decide +kernel, by decide +kernel, resizesExactly_of_reachable hv, by decide +kernel,
    by decide +kernel, by decide +kernel, by decide +kernel⟩

end Table

end OpenAddressing
