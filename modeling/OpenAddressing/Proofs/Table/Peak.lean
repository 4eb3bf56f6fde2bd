import OpenAddressing.Proofs.Table.Calls

/-!
# The slots follow from the most that was asked for

A table that never gives up slots has as many as its start and its history demand. A call demands
room for the entries it leaves, or for those it reserves; the peak of a run is the largest demand of
its calls that succeed. The slots are then those at the start or the fewest that fit the peak,
whichever are more (`Peaks`). Doubling before an insertion agrees with the closed form that reserving
goes by: where the slots that fit the entries are doubled for one more, twice as many are the fewest
that fit (`Doubled.capacity_eq_max`).
-/

namespace OpenAddressing

universe u

namespace Table

variable {α : Type u} {t : Table α}

/-! ## Doubling and the slots that fit -/

/-- Where the slots fit the entries and are doubled for one more, twice as many are the fewest that
fit. -/
theorem Doubled.capacity_eq_max {u : Table α} (h : Doubled t u) (hfits : Fits t.size t.capacity)
    (hsize : u.size = t.size + 1) : u.capacity = max t.capacity (fitting u.size) := by
  have hload := hfits.load
  have hmin := hfits.four_le
  have hfull := h.load
  rw [h.capacity_eq] at hfull ⊢
  have hmore : t.capacity < fitting u.size := by
    have hroom := (fits_fitting u.size).load
    omega
  -- More slots, a power of two as well, are at least twice as many, and that is enough.
  have hdouble : fitting u.size = t.capacity * 2 := by
    apply Nat.le_antisymm
    · apply Fits.fitting_le
      exact ⟨Nat.isPowerOfTwo_mul_two_of_isPowerOfTwo hfits.isPowerOfTwo, by omega, by omega⟩
    · exact Count.mul_two_le_of_lt hfits.isPowerOfTwo (fits_fitting u.size).isPowerOfTwo hmore
  omega

/-! ## Demands -/

/-- A call does not give up slots: the policy is to grow only, and it is not shrinking to fit. -/
def Call.GrowsOnly : Call α → Prop
  | .insert _ policy _ _ _ => policy = .growOnly
  | .remove _ policy _ _ => policy = .growOnly
  | .shrinkToFit _ => False
  | _ => True

/-- The entries that a call demands room for: those it leaves, or those there are with those it makes
room for, and none if it fails. -/
def demand (t : Table α) (call : Call α) : ℕ :=
  match (t.perform call).answer, call with
  | .error _, _ => 0
  | .ok _, .reserve _ additional => t.size + additional
  | .ok _, _ => (t.perform call).state.size

/-- The largest demand of a run. -/
def peak (t : Table α) : List (Call α) → ℕ
  | [] => 0
  | call :: rest => max (t.demand call) ((t.perform call).state.peak rest)

/-- A table that started with `start` slots and has been asked for room for up to `count` entries. -/
structure Peaks (start count : ℕ) (t : Table α) : Prop where
  /-- There are no more entries. -/
  size_le : t.size ≤ count
  /-- The slots are those at the start or the fewest that fit, whichever are more. -/
  capacity_eq : t.capacity = max start (fitting count)

namespace Peaks

variable {start count : ℕ}

/-- The slots fit the entries. -/
theorem fits (h : Peaks start count t) (hw : t.WellFormed) : Fits t.size t.capacity := by
  have hmore : fitting count ≤ t.capacity := h.capacity_eq ▸ Nat.le_max_right ..
  have hsize := h.size_le
  have hload := (fits_fitting count).load
  exact ⟨hw.capacity_eq, hw.four_le, by omega⟩

/-- A table of as many slots and no more entries than were asked for is as before. -/
theorem keep (h : Peaks start count t) {u : Table α} {n : ℕ} (hsize : u.size ≤ count)
    (hcap : u.capacity = t.capacity) (hn : n ≤ count) : Peaks start (max count n) u := by
  rw [Nat.max_eq_left hn]
  exact ⟨hsize, hcap.trans h.capacity_eq⟩

/-- A table with the slots that fit the entries asked for last has those that fit the most asked
for. -/
theorem extend (h : Peaks start count t) {u : Table α} {n : ℕ} (hsize : u.size ≤ n)
    (hcap : u.capacity = max t.capacity (fitting n)) : Peaks start (max count n) u := by
  refine ⟨hsize.trans (Nat.le_max_right ..), ?_⟩
  calc u.capacity = max (max start (fitting count)) (fitting n) := by rw [hcap, h.capacity_eq]
    _ = max start (max (fitting count) (fitting n)) := Nat.max_assoc ..
    _ = max start (fitting (max count n)) := by rw [monotone_fitting.map_max]

/-- An insertion that only grows the table raises the peak to its demand. -/
theorem insert (h : Peaks start count t) (hw : t.WellFormed) (available : Allocator)
    (hash : UInt32) (item : α) (eq : α → Bool) :
    Peaks start (max count (t.demand (.insert available .growOnly hash item eq)))
      (t.insert available .growOnly hash item eq).state := by
  have hfits := h.fits hw
  have hcount := h.size_le
  simp only [demand, perform]
  rcases insert_sizes hw available .growOnly hash item eq with ⟨old, u, heq, hsize, hcap⟩ |
    ⟨u, heq, hsize, ⟨hcap, hkept⟩ | hdouble⟩ | ⟨e, u, heq, -, hsize, hcap | hdouble⟩
  · rw [heq]
    exact h.keep (hsize.trans_le hcount) hcap (hsize.trans_le hcount)
  · -- The slots there were fit one more entry.
    have hstill := hkept rfl
    rw [hcap] at hstill
    rw [heq]
    apply h.extend (Nat.le_refl _)
    have hle : fitting u.size ≤ t.capacity :=
      Fits.fitting_le ⟨hfits.isPowerOfTwo, hfits.four_le, hstill⟩
    rw [hcap, Nat.max_eq_left hle]
  · rw [heq]
    exact h.extend (Nat.le_refl _) (hdouble.capacity_eq_max hfits hsize)
  · rw [heq]
    exact h.keep (hsize.trans_le hcount) hcap (Nat.zero_le _)
  · -- A table whose slots fit its entries has no reason to double without taking one more.
    have hload := hfits.load
    have hfull := hdouble.load
    have htwice := hdouble.capacity_eq
    omega

/-- So does a removal that does not shrink the table. -/
theorem remove (h : Peaks start count t) (hreach : t.Reachable) (available : Allocator)
    (hash : UInt32) (eq : α → Bool) :
    Peaks start (max count (t.demand (.remove available .growOnly hash eq)))
      (t.remove available .growOnly hash eq).state := by
  have hcount := h.size_le
  simp only [demand, perform]
  rcases remove_sizes hreach.wellFormed hreach.capacity_lt_limit available .growOnly hash eq with
    heq | ⟨item, u, heq, hsize, ⟨hcap, -⟩ | ⟨hpolicy, -⟩⟩
  · rw [heq]
    exact h.keep hcount rfl (Nat.zero_le _)
  · rw [heq]
    have hless : u.size ≤ count := by omega
    exact h.keep hless hcap hless
  · exact absurd hpolicy (by decide)

/-- So does a reservation. -/
theorem reserve (h : Peaks start count t) (hreach : t.Reachable) (available : Allocator)
    (additional : ℕ) :
    Peaks start (max count (t.demand (.reserve available additional)))
      (t.reserve available additional).state := by
  simp only [demand, perform]
  rcases reserve_sizes hreach.wellFormed available additional with ⟨u, heq, hsize, hcap, -⟩ |
    ⟨n, u, heq, hsize, hcap⟩
  · rw [heq]
    exact h.extend (hsize.trans_le (Nat.le_add_right ..)) hcap
  · rw [heq]
    exact h.keep (hsize.trans_le h.size_le) hcap (Nat.zero_le _)

/-- Every call that does not give up slots raises the peak to its demand. -/
theorem perform (h : Peaks start count t) (hreach : t.Reachable) {call : Call α}
    (hcall : call.GrowsOnly) : Peaks start (max count (t.demand call)) (t.perform call).state := by
  cases call with
  | insert available policy hash item eq =>
    obtain rfl : policy = .growOnly := hcall
    exact h.insert hreach.wellFormed available hash item eq
  | find => exact h.keep h.size_le rfl h.size_le
  | remove available policy hash eq =>
    obtain rfl : policy = .growOnly := hcall
    exact h.remove hreach available hash eq
  | reserve available additional => exact h.reserve hreach available additional
  | shrinkToFit => exact hcall.elim
  | retain visit state =>
    have hfewer : (t.retain visit state).table.size ≤ count :=
      (size_retain_le hreach.wellFormed visit state).trans h.size_le
    exact h.keep hfewer (retain_spec hreach.wellFormed visit state).capacity_eq hfewer
  | clear => exact h.keep (Nat.zero_le _) (capacity_clear t) (Nat.zero_le _)
  | drain => exact h.keep (Nat.zero_le _) (capacity_clear t) (Nat.zero_le _)

/-- A run raises the peak to the largest of its demands. -/
theorem after (h : Peaks start count t) (hreach : t.Reachable) {calls : List (Call α)}
    (hcalls : ∀ call ∈ calls, call.GrowsOnly) :
    Peaks start (max count (t.peak calls)) (t.after calls) := by
  induction calls generalizing t count with
  | nil => exact h.keep h.size_le rfl (Nat.zero_le _)
  | cons call rest ih =>
    obtain ⟨hcall, hrest⟩ := List.forall_mem_cons.1 hcalls
    have hthen := ih (h.perform hreach hcall) (hreach.perform call) hrest
    rw [Nat.max_assoc] at hthen
    exact hthen

end Peaks

/-! ## New tables -/

/-- A new table, of the fewest slots or on at least as many as asked for. -/
def IsNew (t : Table α) : Prop :=
  t = empty ∨ ∃ available n, withCapacity available n = .ok t

/-- A new table comes about. -/
theorem IsNew.reachable (h : t.IsNew) : t.Reachable := by
  rcases h with rfl | ⟨available, n, h⟩
  · exact .empty
  · exact .withCapacity h

/-- A new table has no entries, and nothing has been asked of it. -/
theorem IsNew.peaks (h : t.IsNew) : Peaks t.capacity 0 t := by
  have hmin : fitting 0 ≤ t.capacity := h.reachable.wellFormed.minCapacity_le
  have hsize : t.size = 0 := by
    rcases h with rfl | ⟨available, n, h⟩
    · rfl
    · exact size_withCapacity h
  exact ⟨hsize.le, (Nat.max_eq_left hmin).symm⟩

/-! ## Insertions of new entries -/

/-- A call that adds an entry demands room for one more than there were, and leaves as many. -/
theorem demand_of_adds (hreach : t.Reachable) {call : Call α} (h : t.adds call = true) :
    t.demand call = t.size + 1 ∧ (t.perform call).state.size = t.size + 1 := by
  cases call with
  | insert available policy hash item eq =>
    simp only [adds, demand, perform] at h ⊢
    rcases insert_sizes hreach.wellFormed available policy hash item eq with ⟨old, u, heq, -⟩ |
      ⟨u, heq, hsize, -⟩ | ⟨e, u, heq, -⟩
    · rw [heq] at h
      cases h
    · rw [heq]
      exact ⟨hsize, hsize⟩
    · rw [heq] at h
      cases h
  | _ => cases h

/-- A run that adds an entry with each call demands room for all of them. -/
theorem max_size_peak (hreach : t.Reachable) {calls : List (Call α)}
    (hadds : t.additions calls = calls.length) :
    max t.size (t.peak calls) = t.size + calls.length := by
  induction calls generalizing t with
  | nil => exact Nat.max_eq_left (Nat.zero_le _)
  | cons call rest ih =>
    -- A call adds at most one entry, so each of them adds one.
    have hrest := (t.perform call).state.additions_le_length rest
    rw [additions, List.length_cons] at hadds
    have hone := Bool.toNat_le (t.adds call)
    have hcall : t.adds call = true := Bool.toNat_eq_one.1 (by omega)
    obtain ⟨hdemand, hsize⟩ := demand_of_adds hreach hcall
    have hthen := ih (hreach.perform call) (by omega)
    rw [hsize] at hthen
    calc max t.size (t.peak (call :: rest))
        = max t.size (max (t.size + 1) ((t.perform call).state.peak rest)) := by
          rw [peak, hdemand]
      _ = max t.size (t.size + 1 + rest.length) := by rw [hthen]
      _ = t.size + (call :: rest).length := by rw [List.length_cons]; omega

/-- However a new table is used without giving up slots, and whichever slots cannot be obtained, it
has the slots it started with or the fewest that fit the peak, whichever are more. Further new
entries, inserted one by one, take it to the slots that reserving room for them goes to at once. -/
theorem capacity_after_of_isNew (h : t.IsNew) {calls : List (Call α)}
    (hcalls : ∀ call ∈ calls, call.GrowsOnly) :
    (∃ slots, IsLeast {capacity | Fits (t.peak calls) capacity} slots ∧
      (t.after calls).capacity = max t.capacity slots) ∧
    ∀ inserts : List (Call α), (∀ call ∈ inserts, call.GrowsOnly) →
      (t.after calls).additions inserts = inserts.length →
      ∀ available, ((t.after calls).reserve available inserts.length).answer = .ok () →
        ((t.after calls).after inserts).capacity
          = ((t.after calls).reserve available inserts.length).state.capacity := by
  have hpeaks := h.peaks.after h.reachable hcalls
  rw [Nat.zero_max] at hpeaks
  have hreach := h.reachable.after calls
  refine ⟨⟨fitting (t.peak calls), isLeast_fitting _, hpeaks.capacity_eq⟩, ?_⟩
  intro inserts hinserts hadds available hok
  generalize t.after calls = u at hpeaks hreach hadds hok ⊢
  have hone := (hpeaks.after hreach hinserts).capacity_eq
  have hpeak := max_size_peak hreach hadds
  rcases reserve_sizes hreach.wellFormed available inserts.length with ⟨v, heq, -, hcap, -⟩ |
    ⟨n, v, heq, -⟩
  · -- Both go to the slots that fit the entries there will be, or stay where the peak has led.
    rw [heq, hone]
    have hsize := hpeaks.size_le
    have hsame : max (t.peak calls) (u.peak inserts)
        = max (t.peak calls) (u.size + inserts.length) := by omega
    calc max t.capacity (fitting (max (t.peak calls) (u.peak inserts)))
        = max t.capacity (fitting (max (t.peak calls) (u.size + inserts.length))) := by rw [hsame]
      _ = max t.capacity (max (fitting (t.peak calls)) (fitting (u.size + inserts.length))) := by
          rw [monotone_fitting.map_max]
      _ = max u.capacity (fitting (u.size + inserts.length)) := by
          rw [hpeaks.capacity_eq, Nat.max_assoc]
      _ = v.capacity := hcap.symm
  · rw [heq] at hok
    cases hok

/-- A table on eight slots that takes six entries, is refused slots for twenty more, and is cleared:
it stays at the sixteen slots of its peak. Twelve further entries, or room for them, take it to
thirty-two. -/
theorem capacity_after_of_eight_slots :
    let insert (n : ℕ) : Call ℕ := .insert (fun _ => true) .growOnly (UInt32.ofNat n) n (· == n)
    let calls := (List.range 6).map insert ++ [.reserve (fun _ => false) 20, .clear]
    let inserts := (List.range 12).map insert
    ∃ t : Table ℕ, withCapacity (fun _ => true) 5 = .ok t ∧ t.peak calls = 6 ∧
      (∃ slots, IsLeast {capacity | Fits 6 capacity} slots ∧
        (t.after calls).capacity = max 8 slots) ∧
      ((t.after calls).after inserts).capacity
        = ((t.after calls).reserve (fun _ => true) 12).state.capacity := by
  intro insert calls inserts
  have hnew : (vacant 8 : Table ℕ).IsNew := Or.inr ⟨fun _ => true, 5, by decide +kernel⟩
  have hpeak : (vacant 8 : Table ℕ).peak calls = 6 := by decide +kernel
  have hcalls : ∀ call ∈ calls, call.GrowsOnly :=
    List.forall_mem_append.2 ⟨List.forall_mem_map.2 fun _ _ => rfl, by simp [Call.GrowsOnly]⟩
  have hinserts : ∀ call ∈ inserts, call.GrowsOnly := List.forall_mem_map.2 fun _ _ => rfl
  obtain ⟨hleast, hreserve⟩ := capacity_after_of_isNew hnew hcalls
  rw [hpeak, capacity_vacant] at hleast
  exact ⟨vacant 8, by decide +kernel, hpeak, hleast,
    hreserve inserts hinserts (by decide +kernel) (fun _ => true) (by decide +kernel)⟩

end Table

end OpenAddressing
