import OpenAddressing.Proofs.Checked.Table
import OpenAddressing.Proofs.Table.Cursor
import OpenAddressing.Proofs.Table.Filtering
import OpenAddressing.Table.Stats

/-!
# Computing with machine words, by walk

The operations that come to every entry of a table, computed with machine words: keeping some of the
entries, walking over them, rewriting them and counting their displacements.

A walk that removes takes from the size once for each entry it takes out, and one that rebuilds adds
to it once for each entry it places. A cursor takes from the number of items still to come, which is
that of the entries in the slots it has not passed (`Cursor.Counted`). A histogram holds no count
above the number of entries tallied. So none of them comes to a fault.
-/

namespace OpenAddressing

universe u v

/-! ## Keeping some of the entries -/

namespace Table

variable {α : Type u} {σ : Type v} {t : Table α}

/-- The walk from `index` on over `slots` more slots, with at most `turns` visits to a slot. -/
def checkedSweepFrom (visit : α → σ → Verdict α × σ) (mask : ℕ) :
    (turns slots index : ℕ) → Table α → (removed : List α) → σ → Checked (Sweep σ α)
  | 0, _, _, t, removed, state => .ok ⟨t, removed.reverse, state⟩
  | _ + 1, 0, _, t, removed, state => .ok ⟨t, removed.reverse, state⟩
  | turns + 1, slots + 1, index, t, removed, state =>
    (t.slots.checkedGet index).andThen fun cell =>
    match cell with
    | none =>
      (Checked.add index 1).andThen fun next =>
      checkedSweepFrom visit mask turns slots (next &&& mask) t removed state
    | some slot =>
      let visited := visit slot.item state
      (t.slots.checkedSet index (some ⟨slot.hash, visited.1.item⟩)).andThen fun cells =>
      if visited.1.keep then
        (Checked.add index 1).andThen fun next =>
        checkedSweepFrom visit mask turns slots (next &&& mask) ⟨cells, t.size, t.resizing⟩ removed
          visited.2
      else
        (checkedEraseAt ⟨cells, t.size, t.resizing⟩ index).andThen fun erased =>
        match erased with
        | (some gone, t) =>
          checkedSweepFrom visit mask turns (slots + 1) index t (gone.item :: removed) visited.2
        | (none, t) => checkedSweepFrom visit mask turns (slots + 1) index t removed visited.2

/-- Visits further entries one after another and places those that stay. -/
def checkedRebuildFrom (visit : α → σ → Verdict α × σ) :
    List (Slot α) → Table α → (removed : List α) → σ → Checked (Sweep σ α)
  | [], t, removed, state => .ok ⟨t, removed.reverse, state⟩
  | slot :: rest, t, removed, state =>
    let visited := visit slot.item state
    if visited.1.keep then
      (t.slots.checkedPlace ⟨slot.hash, visited.1.item⟩).andThen fun placed =>
      match placed with
      | (slots, some _) =>
        (Checked.add t.size 1).andThen fun size =>
        checkedRebuildFrom visit rest ⟨slots, size, t.resizing⟩ removed visited.2
      | (slots, none) =>
        checkedRebuildFrom visit rest ⟨slots, t.size, t.resizing⟩ removed visited.2
    else checkedRebuildFrom visit rest t (visited.1.item :: removed) visited.2

/-- Visits every entry once and keeps those the visits keep. -/
def checkedRetain (t : Table α) (visit : α → σ → Verdict α × σ) (state : σ) :
    Checked (Sweep σ α) :=
  (Checked.sub t.capacity 1).andThen fun mask =>
  match t.slots.firstVacant? with
  | none => checkedRebuildFrom visit t.entries t.clear [] state
  | some vacantIndex =>
    (Checked.add vacantIndex 1).andThen fun start =>
    checkedSweepFrom visit mask (t.capacity - 1 + t.size) (t.capacity - 1) (start &&& mask) t []
      state

/-- A walk by masks comes to the same slots. -/
theorem checkedSweepFrom_eq {n : ℕ} (visit : α → σ → Verdict α × σ) (turns slots index : ℕ)
    {t : Table α} (hc : t.Counted) (hn : t.capacity = n) (removed : List α) (state : σ) :
    checkedSweepFrom visit (n - 1) turns slots (index % n) t removed state
      = .ok (sweepFrom visit turns slots index t removed state) := by
  induction turns generalizing slots index t removed state with
  | zero => rfl
  | succ turns ih =>
    cases slots with
    | zero => rfl
    | succ slots =>
      subst hn
      have hring : RingSize t.capacity := hc.ringSize
      have hread : t.slots.checkedGet (index % t.capacity) = .ok (t.slots.get index) :=
        Slots.checkedGet_mod hring.pos index
      rw [checkedSweepFrom, sweepFrom, hread, Checked.andThen_ok]
      cases hget : t.slots.get index with
      | none =>
        dsimp only
        rw [hring.checked_succ, Checked.andThen_ok, hring.succ_and_mask]
        exact ih slots (index + 1) hc rfl removed state
      | some slot =>
        have hhash : (⟨slot.hash, (visit slot.item state).1.item⟩ : Slot α).hash = slot.hash := rfl
        have hwrite : t.slots.checkedSet (index % t.capacity)
            (some ⟨slot.hash, (visit slot.item state).1.item⟩)
              = .ok (t.slots.set index (some ⟨slot.hash, (visit slot.item state).1.item⟩)) :=
          Slots.checkedSet_mod hring.pos index _
        have hitem : (⟨t.slots.set index (some ⟨slot.hash, (visit slot.item state).1.item⟩), t.size,
            t.resizing⟩ : Table α) = t.setItem index ⟨slot.hash, (visit slot.item state).1.item⟩ :=
          rfl
        obtain ⟨hwu, hcap, -⟩ := setItem_spec hc.wellFormed hget hhash
        dsimp only
        rw [hwrite, Checked.andThen_ok, hitem]
        generalize t.setItem index ⟨slot.hash, (visit slot.item state).1.item⟩ = u at *
        have hcu : u.Counted := ⟨hwu, hcap.trans_lt hc.lt_limit⟩
        split
        · rw [hring.checked_succ, Checked.andThen_ok, hring.succ_and_mask]
          exact ih slots (index + 1) hcu hcap removed _
        · -- The entries after the gap move back, so the walk goes on at the same slot.
          obtain ⟨hcw, hcapw⟩ := hcu.eraseAt index
          have herase := checkedEraseAt_eq hcu index
          rw [hcap] at herase hcapw
          rw [herase, Checked.andThen_ok]
          generalize u.eraseAt index = erased at hcw hcapw
          obtain ⟨_ | gone, w⟩ := erased
          · exact ih (slots + 1) index hcw hcapw removed _
          · exact ih (slots + 1) index hcw hcapw (gone.item :: removed) _

/-- A rebuild that has room for all entries places them without a fault. -/
theorem checkedRebuildFrom_eq (visit : α → σ → Verdict α × σ) {rest : List (Slot α)}
    {t : Table α} (hc : t.Counted) (hroom : t.size + rest.length ≤ t.capacity) (removed : List α)
    (state : σ) :
    checkedRebuildFrom visit rest t removed state
      = .ok (rebuildFrom visit rest t removed state) := by
  induction rest generalizing t removed state with
  | nil => rfl
  | cons slot rest ih =>
    rw [List.length_cons] at hroom
    rw [checkedRebuildFrom, rebuildFrom]
    dsimp only
    split
    · obtain ⟨s, i, hplace, hcap, hplaced⟩ :=
        hc.wellFormed.place (by omega) ⟨slot.hash, (visit slot.item state).1.item⟩
      have hnext : (⟨s, t.size + 1, t.resizing⟩ : Table α).Counted :=
        ⟨(hplaced t.resizing).1, hcap.trans_lt hc.lt_limit⟩
      have hroom' : t.size + 1 + rest.length ≤ s.capacity := by omega
      rw [Slots.checkedPlace_eq hc.ringSize, Checked.andThen_ok, hplace]
      dsimp only
      rw [hc.checked_succ, Checked.andThen_ok]
      exact ih hnext hroom' removed _
    · exact ih hc (by omega) _ _

theorem checkedRetain_eq (hc : t.Counted) (visit : α → σ → Verdict α × σ) (state : σ) :
    t.checkedRetain visit state = .ok (t.retain visit state) := by
  have hring : RingSize t.capacity := hc.ringSize
  rw [checkedRetain, retain, hring.checked_mask, Checked.andThen_ok]
  cases hfirst : t.slots.firstVacant? with
  | none =>
    -- The rebuild starts from no entries, on as many slots as before.
    have hcapacity := capacity_clear t
    refine checkedRebuildFrom_eq visit (hc.step (.clear t)) ?_ [] state
    rw [hcapacity, ← hc.wellFormed.size_eq]
    show 0 + t.size ≤ t.capacity
    rw [Nat.zero_add]
    exact hc.wellFormed.size_le
  | some vacantIndex =>
    have hlt : vacantIndex < t.capacity := (Slots.isLeast_of_firstVacant? hfirst).1.1
    have hstart := hring.checked_succ vacantIndex
    have hmask := hring.succ_and_mask vacantIndex
    rw [Nat.mod_eq_of_lt hlt] at hstart hmask
    dsimp only
    rw [hstart, Checked.andThen_ok, hmask]
    exact checkedSweepFrom_eq visit _ _ _ hc rfl [] state

end Table

/-! ## Walking over the entries -/

/-- Where a slot that is taken is passed, there was an item to come. -/
theorem checked_pred_remaining {α : Type u} {pending rest : List (Option (Slot α))}
    {slot : Slot α} {remaining : ℕ} (h : remaining = (pending.filterMap id).length)
    (hdrop : pending.dropWhile Option.isNone = some slot :: rest) :
    Checked.sub remaining 1 = .ok (remaining - 1) ∧
      remaining - 1 = (rest.filterMap id).length := by
  have hitems : pending.filterMap id = slot :: rest.filterMap id := by
    rw [← Cursor.filterMap_dropWhile_isNone, hdrop]
    rfl
  rw [hitems, List.length_cons] at h
  exact ⟨Checked.sub_of_le (by omega), by omega⟩

namespace Cursor

variable {α : Type u} {c : Cursor α}

/-- As many items are still to come as the cursor counts. -/
def Counted (c : Cursor α) : Prop := c.remaining = (c.pending.filterMap id).length

/-- The next item, and the walk after it. -/
def checkedNext? (c : Cursor α) : Checked (Option (α × Cursor α)) :=
  match c.pending.dropWhile Option.isNone with
  | some slot :: rest =>
    (Checked.sub c.remaining 1).andThen fun remaining => .ok (some (slot.item, ⟨rest, remaining⟩))
  | _ => .ok none

/-- The next items after those of `taken`, which holds the latest first. -/
def checkedTakeFrom : (n : ℕ) → (taken : List α) → Cursor α → Checked (List α × Cursor α)
  | 0, taken, c => .ok (taken.reverse, c)
  | n + 1, taken, c =>
    c.checkedNext?.andThen fun next =>
    match next with
    | none => .ok (taken.reverse, c)
    | some (item, c) => checkedTakeFrom n (item :: taken) c

/-- A step takes from the number of items to come where there is one. -/
theorem checkedNext?_eq (hc : c.Counted) :
    c.checkedNext? = .ok c.next? ∧ ∀ item after, c.next? = some (item, after) → after.Counted := by
  rw [checkedNext?, next?]
  rcases hdrop : c.pending.dropWhile Option.isNone with _ | ⟨_ | slot, rest⟩
  · exact ⟨rfl, fun _ _ h => (by cases h)⟩
  · exact ⟨rfl, fun _ _ h => (by cases h)⟩
  · obtain ⟨hpred, hleft⟩ := checked_pred_remaining hc hdrop
    dsimp only
    rw [hpred, Checked.andThen_ok]
    refine ⟨rfl, fun item after h => ?_⟩
    obtain ⟨rfl, rfl⟩ := Prod.mk.inj (Option.some.inj h)
    exact hleft

/-- A cursor that counts too few items to come breaks off. -/
example : checkedNext? (⟨[none, some ⟨0, 5⟩], 0⟩ : Cursor ℕ) = .error .underflow := rfl

theorem checkedTakeFrom_eq (hc : c.Counted) (n : ℕ) (taken : List α) :
    checkedTakeFrom n taken c = .ok (takeFrom n taken c) := by
  induction n generalizing taken c with
  | zero => rfl
  | succ n ih =>
    obtain ⟨hnext, hafter⟩ := checkedNext?_eq hc
    rw [checkedTakeFrom, takeFrom, hnext, Checked.andThen_ok]
    cases hstep : c.next? with
    | none => rfl
    | some next => exact ih (hafter _ _ hstep) _

end Cursor

namespace Editor

variable {α : Type u} {e : Editor α}

/-- As many items are still to come as the walk counts. -/
def Counted (e : Editor α) : Prop := e.remaining = (e.pending.filterMap id).length

/-- Passes the next item and rewrites it by `f`. -/
def checkedNext? (e : Editor α) (f : α → α) : Checked (Option (Editor α)) :=
  match e.pending.dropWhile Option.isNone with
  | some slot :: rest =>
    (Checked.sub e.remaining 1).andThen fun remaining =>
    .ok (some ⟨some ⟨slot.hash, f slot.item⟩ ::
      ((e.pending.takeWhile Option.isNone).reverse ++ e.passed), rest, remaining⟩)
  | _ => .ok none

/-- Passes the next items, one for each function, and rewrites each by its own. -/
def checkedTakeEach : List (α → α) → Editor α → Checked (Editor α)
  | [], e => .ok e
  | f :: fs, e =>
    (e.checkedNext? f).andThen fun next =>
    match next with
    | none => .ok e
    | some e => checkedTakeEach fs e

/-- A step takes from the number of items to come where there is one. -/
theorem checkedNext?_eq (hc : e.Counted) (f : α → α) :
    e.checkedNext? f = .ok (e.next? f) ∧ ∀ after, e.next? f = some after → after.Counted := by
  rw [checkedNext?, next?]
  rcases hdrop : e.pending.dropWhile Option.isNone with _ | ⟨_ | slot, rest⟩
  · exact ⟨rfl, fun _ h => (by cases h)⟩
  · exact ⟨rfl, fun _ h => (by cases h)⟩
  · obtain ⟨hpred, hleft⟩ := checked_pred_remaining hc hdrop
    dsimp only
    rw [hpred, Checked.andThen_ok]
    refine ⟨rfl, fun after h => ?_⟩
    obtain rfl := Option.some.inj h
    exact hleft

theorem checkedTakeEach_eq (hc : e.Counted) (fs : List (α → α)) :
    e.checkedTakeEach fs = .ok (e.takeEach fs) := by
  induction fs generalizing e with
  | nil => rfl
  | cons f fs ih =>
    obtain ⟨hnext, hafter⟩ := checkedNext?_eq hc f
    rw [checkedTakeEach, takeEach, hnext, Checked.andThen_ok]
    cases hstep : e.next? f with
    | none => rfl
    | some next => exact ih (hafter _ hstep)

end Editor

/-! ## Displacement statistics -/

/-- Counts one more occurrence of `value`, extending the counts by zeros as far as needed. -/
def checkedTally (counts : Array ℕ) (value : ℕ) : Checked (Array ℕ) :=
  (Checked.add value 1).andThen fun length =>
  let extended :=
    if counts.size ≤ value then counts ++ Array.replicate (length - counts.size) 0 else counts
  match extended[value]? with
  | none => .error .index
  | some count =>
    (Checked.add count 1).andThen fun count => .ok (extended.setIfInBounds value count)

/-- The counts extended by zeros are bounded as before. -/
theorem le_of_mem_extended {counts : Array ℕ} {bound : ℕ} (h : ∀ count ∈ counts, count ≤ bound)
    (n : ℕ) : ∀ count ∈ counts ++ Array.replicate n 0, count ≤ bound := by
  intro count hmem
  rcases Array.mem_append.1 hmem with hold | hnew
  · exact h count hold
  · rw [(Array.mem_replicate.1 hnew).2]
    exact Nat.zero_le bound

/-- A tally adds at most one to a count. -/
theorem le_of_mem_tally {counts : Array ℕ} {bound : ℕ} (h : ∀ count ∈ counts, count ≤ bound)
    (value : ℕ) : ∀ count ∈ tally counts value, count ≤ bound + 1 := by
  intro count hmem
  obtain ⟨i, hi, rfl⟩ := Array.mem_iff_getElem.1 hmem
  rw [tally, Array.size_modify] at hi
  have hle := le_of_mem_extended h (value + 1 - counts.size) _ (Array.getElem_mem hi)
  simp only [tally, Array.getElem_modify]
  split
  · exact Nat.add_le_add_right hle 1
  · exact Nat.le_succ_of_le hle

/-- Counts that reach the value are extended by no zeros. -/
theorem extended_eq (counts : Array ℕ) (value : ℕ) :
    (if counts.size ≤ value then counts ++ Array.replicate (value + 1 - counts.size) 0 else counts)
      = counts ++ Array.replicate (value + 1 - counts.size) 0 := by
  split
  · rfl
  · rw [show value + 1 - counts.size = 0 by omega, Array.replicate_zero, Array.append_empty]

/-- Writing the successor of a count is counting one more. -/
theorem setIfInBounds_succ {counts : Array ℕ} {i : ℕ} (hi : i < counts.size) :
    counts.setIfInBounds i (counts[i] + 1) = counts.modify i (· + 1) := by
  refine Array.ext (by simp) fun j hj _ => ?_
  rw [Array.getElem_modify, Array.getElem_setIfInBounds (by simpa using hj)]
  by_cases hij : i = j
  · subst hij
    rw [if_pos rfl]
  · rw [if_neg hij, if_neg hij]

/-- A value with a successor is tallied, where the counts have successors. -/
theorem checkedTally_eq {counts : Array ℕ} {bound : ℕ} (h : ∀ count ∈ counts, count ≤ bound)
    (hbound : bound + 1 < Count.limit) {value : ℕ} (hvalue : value + 1 < Count.limit) :
    checkedTally counts value = .ok (tally counts value) := by
  have hle := le_of_mem_extended h (value + 1 - counts.size)
  have hlt : value < (counts ++ Array.replicate (value + 1 - counts.size) 0).size := by
    rw [Array.size_append, Array.size_replicate]
    omega
  rw [checkedTally, Checked.add_of_lt hvalue, Checked.andThen_ok, extended_eq, tally]
  generalize counts ++ Array.replicate (value + 1 - counts.size) 0 = extended at hle hlt
  have hcount := hle _ (Array.getElem_mem hlt)
  dsimp only
  rw [Array.getElem?_eq_getElem hlt]
  dsimp only
  rw [Checked.add_of_lt (by omega), Checked.andThen_ok, setIfInBounds_succ]

namespace Table

variable {α : Type u} {t : Table α}

/-- Counts the displacements of the entries in further slots, each with its index. -/
def checkedTallyFrom (capacity : ℕ) : List (Option (Slot α) × ℕ) → Array ℕ → Checked (Array ℕ)
  | [], counts => .ok counts
  | (none, _) :: rest, counts => checkedTallyFrom capacity rest counts
  | (some slot, index) :: rest, counts =>
    (checkedDisplacement slot.hash index capacity).andThen fun value =>
    (checkedTally counts value).andThen fun counts => checkedTallyFrom capacity rest counts

/-- How many entries have each displacement, up to the largest. -/
def checkedHistogram (t : Table α) : Checked (Array ℕ) :=
  checkedTallyFrom t.capacity t.slots.cells.toList.zipIdx #[]

/-- Slots of a ring are tallied, where the counts leave room for all of them. -/
theorem checkedTallyFrom_eq {n : ℕ} (hn : RingSize n) {l : List (Option (Slot α) × ℕ)}
    (hl : ∀ p ∈ l, p.2 < n) {counts : Array ℕ} {bound : ℕ}
    (hcounts : ∀ count ∈ counts, count ≤ bound) (hbound : bound + l.length ≤ n) :
    checkedTallyFrom n l counts = .ok ((l.filterMap fun (cell, index) =>
      cell.map fun slot => displacement slot.hash index n).foldl tally counts) := by
  induction l generalizing counts bound with
  | nil => rfl
  | cons p rest ih =>
    obtain ⟨cell, index⟩ := p
    rw [List.length_cons] at hbound
    have hrest : ∀ p ∈ rest, p.2 < n := fun p hp => hl p (List.mem_cons_of_mem _ hp)
    cases cell with
    | none =>
      rw [checkedTallyFrom]
      exact ih hrest hcounts (by omega)
    | some slot =>
      -- A displacement is below the number of slots, and so are the entries tallied so far.
      have hlimit := hn.lt_limit
      have hindex : index % n = index := Nat.mod_eq_of_lt (hl _ List.mem_cons_self)
      have hvalue : displacement slot.hash index n < n := displacement_lt _ _ hn.pos
      have hdisplacement := checkedDisplacement_eq hn slot.hash index
      rw [hindex] at hdisplacement
      rw [checkedTallyFrom, hdisplacement, Checked.andThen_ok,
        checkedTally_eq hcounts (by omega) (by omega), Checked.andThen_ok]
      exact ih hrest (le_of_mem_tally hcounts _) (by omega)

theorem checkedHistogram_eq (hc : t.Counted) : t.checkedHistogram = .ok t.histogram := by
  have hindex : ∀ p ∈ t.slots.cells.toList.zipIdx, p.2 < t.capacity := fun p hp => by
    have hlt := List.snd_lt_of_mem_zipIdx hp
    rwa [Array.length_toList, Nat.add_zero] at hlt
  have hcounts : ∀ count ∈ (#[] : Array ℕ), count ≤ 0 := by simp
  refine checkedTallyFrom_eq hc.ringSize hindex hcounts ?_
  rw [Nat.zero_add, List.length_zipIdx, Array.length_toList]
  exact Nat.le_refl _

/-- A walk over a table counts its entries. -/
theorem Counted.cursor (hc : t.Counted) : t.cursor.Counted := hc.wellFormed.size_eq

/-- So does one that rewrites them. -/
theorem Counted.editor (hc : t.Counted) : t.editor.Counted := hc.wellFormed.size_eq

/-- Rewrites the first items in slot order, each by a function of its own. -/
def checkedMapEach (t : Table α) (fs : List (α → α)) : Checked (Table α) :=
  (t.editor.checkedTakeEach fs).andThen fun e => .ok (t.edited e)

theorem checkedMapEach_eq (hc : t.Counted) (fs : List (α → α)) :
    t.checkedMapEach fs = .ok (t.mapEach fs) := by
  rw [checkedMapEach, Editor.checkedTakeEach_eq hc.editor, Checked.andThen_ok, mapEach]

end Table

end OpenAddressing
