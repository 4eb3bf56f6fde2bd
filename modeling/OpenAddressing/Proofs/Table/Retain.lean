import OpenAddressing.Proofs.Table.Update
import OpenAddressing.Table.Retain

/-!
# Keeping some of the entries visits each of them once

`visitAll` visits the entries of a list one after another, threading the running state, and says
which are kept and which removed. `retain` does that over `visitOrder`, the entries of the table in
slot order from the slot after the first vacant one, or from the first slot if none is vacant
(`retain_spec`).

The walk in place removes as it goes. Closing a gap at the slot being visited moves the entries not
visited yet back by one slot and no others, since the walk ends before a vacant slot and nothing
moves across that one. So what is still to be visited loses its first entry and nothing else
(`stretch_of_movedBack`), and the walk comes to every entry once, in the order they had
(`sweepFrom_spec`).
-/

namespace OpenAddressing

universe u v

/-- What visiting the entries of a list leaves. -/
structure Visited (σ : Type v) (α : Type u) where
  /-- The entries kept, with their items as the visits leave them. -/
  kept : List (Slot α)
  /-- The items of the others, as the visits leave them. -/
  removed : List α
  /-- The running state after the last visit. -/
  state : σ

/-- Visits the entries of a list one after another. -/
def visitAll {α : Type u} {σ : Type v} (visit : α → σ → Verdict α × σ) :
    List (Slot α) → σ → Visited σ α
  | [], state => ⟨[], [], state⟩
  | slot :: rest, state =>
    let (verdict, state) := visit slot.item state
    let after := visitAll visit rest state
    if verdict.keep then { after with kept := ⟨slot.hash, verdict.item⟩ :: after.kept }
    else { after with removed := verdict.item :: after.removed }

section Visit

variable {α : Type u} {σ : Type v} {visit : α → σ → Verdict α × σ} {slot : Slot α} {state : σ}

/-- A first entry that is kept. -/
theorem visitAll_cons_of_keep (h : (visit slot.item state).1.keep = true) (rest : List (Slot α)) :
    visitAll visit (slot :: rest) state
      = ⟨⟨slot.hash, (visit slot.item state).1.item⟩
          :: (visitAll visit rest (visit slot.item state).2).kept,
        (visitAll visit rest (visit slot.item state).2).removed,
        (visitAll visit rest (visit slot.item state).2).state⟩ := by
  rw [visitAll]
  dsimp only
  rw [if_pos h]

/-- A first entry that is removed. -/
theorem visitAll_cons_of_not_keep (h : (visit slot.item state).1.keep = false)
    (rest : List (Slot α)) :
    visitAll visit (slot :: rest) state
      = ⟨(visitAll visit rest (visit slot.item state).2).kept,
        (visit slot.item state).1.item :: (visitAll visit rest (visit slot.item state).2).removed,
        (visitAll visit rest (visit slot.item state).2).state⟩ := by
  rw [visitAll]
  dsimp only
  rw [if_neg (by rw [h]; exact Bool.false_ne_true)]

end Visit

namespace Slots

variable {α : Type u} {s t : Slots α}

/-- Closing the gap at the first slot of a stretch takes that slot out of the stretch, if the gap
does not reach beyond the stretch. -/
theorem stretch_of_movedBack {gap m n : ℕ} (h : MovedBack s t gap m) (hmn : m ≤ n)
    (hn : n < s.capacity) : t.stretch gap (n + 1) = s.stretch (gap + 1) n := by
  have hbefore : t.stretch gap m = s.stretch (gap + 1) m := stretch_congr h.moved
  have hbeyond : t.stretch (gap + m + 1) (n - m) = s.stretch (gap + m + 1) (n - m) := by
    refine stretch_congr fun k hk => ?_
    have hkept := h.kept (m + 1 + k) (by omega) (by omega)
    rwa [show gap + (m + 1 + k) = gap + m + 1 + k by omega] at hkept
  calc t.stretch gap (n + 1) = t.stretch gap (m + (n - m + 1)) := by
        rw [show n + 1 = m + (n - m + 1) by omega]
    _ = t.stretch gap m ++ t.stretch (gap + m) (n - m + 1) := stretch_add t gap m _
    _ = t.stretch gap m ++ t.stretch (gap + m + 1) (n - m) := by
        rw [stretch_of_get_none h.vacated]
    _ = s.stretch (gap + 1) m ++ s.stretch (gap + 1 + m) (n - m) := by
        rw [hbefore, hbeyond, Nat.add_right_comm]
    _ = s.stretch (gap + 1) n := by
        rw [← stretch_add, show m + (n - m) = n by omega]

/-- A gap does not reach beyond a vacant slot. -/
theorem MovedBack.le_of_get_none {gap m n : ℕ} (h : MovedBack s t gap m)
    (hv : s.get (gap + 1 + n) = none) : m ≤ n := by
  rcases Nat.lt_or_ge n m with hlt | hge
  · have haway := h.away n hlt
    rw [depth_eq_zero_iff.2 hv] at haway
    omega
  · exact hge

/-- The first vacant slot is vacant. -/
theorem get_firstVacant? {i : ℕ} (h : s.firstVacant? = some i) : s.get i = none := by
  unfold firstVacant? at h
  obtain ⟨hlt, hnone, -⟩ := Array.findIdx?_eq_some_iff_getElem.1 h
  rw [get_of_lt s hlt]
  exact Option.isNone_iff_eq_none.1 hnone

end Slots

/-- What a walk owes that visits the entries `order` of a table and found `others` in it. -/
structure Sweep.Visits {α : Type u} {σ : Type v} (r : Sweep σ α) (capacity : ℕ)
    (others : Multiset (Slot α)) (removed : List α) (visited : Visited σ α) : Prop where
  /-- The table is well formed. -/
  wellFormed : r.table.WellFormed
  /-- No slot is added or dropped. -/
  capacity_eq : r.table.capacity = capacity
  /-- The table holds the others and what the visits keep. -/
  contents : r.table.contents = others + visited.kept
  /-- The visits remove, after what was removed before, what they remove. -/
  removed_eq : r.removed = removed ++ visited.removed
  /-- The running state is that of the last visit. -/
  state_eq : r.state = visited.state

section Walk

variable {α : Type u} {σ : Type v} {visit : α → σ → Verdict α × σ} {slot : Slot α} {state : σ}
  {r : Sweep σ α} {capacity : ℕ} {others : Multiset (Slot α)} {removed : List α}
  {rest : List (Slot α)}

/-- What a walk owes after an entry that is kept, it owes from that entry on. -/
theorem Sweep.Visits.cons_of_keep (hkeep : (visit slot.item state).1.keep = true)
    (h : r.Visits capacity (⟨slot.hash, (visit slot.item state).1.item⟩ ::ₘ others) removed
      (visitAll visit rest (visit slot.item state).2)) :
    r.Visits capacity others removed (visitAll visit (slot :: rest) state) := by
  rw [visitAll_cons_of_keep hkeep]
  refine ⟨h.wellFormed, h.capacity_eq, ?_, h.removed_eq, h.state_eq⟩
  rw [h.contents, ← Multiset.cons_coe, Multiset.cons_add, Multiset.add_cons]

/-- What a walk owes after an entry that is removed, it owes from that entry on. -/
theorem Sweep.Visits.cons_of_not_keep (hkeep : (visit slot.item state).1.keep = false)
    (h : r.Visits capacity others (removed ++ [(visit slot.item state).1.item])
      (visitAll visit rest (visit slot.item state).2)) :
    r.Visits capacity others removed (visitAll visit (slot :: rest) state) := by
  rw [visitAll_cons_of_not_keep hkeep]
  refine ⟨h.wellFormed, h.capacity_eq, h.contents, ?_, h.state_eq⟩
  rw [h.removed_eq, List.append_assoc, List.singleton_append]

end Walk

namespace Table

variable {α : Type u} {σ : Type v} {t : Table α}

/-- The entries in the order in which they are visited: slot order from the slot after the first
vacant one, or from the first slot if none is vacant. -/
def visitOrder (t : Table α) : List (Slot α) :=
  match t.slots.firstVacant? with
  | none => t.entries
  | some vacantIndex => t.slots.stretch (vacantIndex + 1) (t.capacity - 1)

/-- Every entry is visited once. -/
theorem coe_visitOrder (hw : t.WellFormed) : (t.visitOrder : Multiset (Slot α)) = t.contents := by
  unfold visitOrder
  split
  · rfl
  · rename_i vacantIndex hfirst
    have hround := Slots.contents_eq_held_add t.slots hw.capacity_pos vacantIndex
    rw [Slots.get_firstVacant? hfirst, held_none, zero_add] at hround
    exact hround.symm

/-- Rewriting the item in a slot keeps the table well formed and the slots after it as they are. -/
theorem setItem_spec (hw : t.WellFormed) {index : ℕ} {slot new : Slot α}
    (hget : t.slots.get index = some slot) (hhash : new.hash = slot.hash) :
    (t.setItem index new).WellFormed ∧ (t.setItem index new).capacity = t.capacity ∧
      (t.setItem index new).slots.get index = some new ∧
      slot ::ₘ (t.setItem index new).contents = new ::ₘ t.contents ∧
      ∀ k, k + 1 < t.capacity →
        (t.setItem index new).slots.get (index + 1 + k) = t.slots.get (index + 1 + k) := by
  refine ⟨hw.overwrite hget hhash, Slots.capacity_set .., Slots.get_set_self _ hw.capacity_pos _ _,
    hw.cons_contents_overwrite hget new, fun k hk => ?_⟩
  have hne := Slots.mod_ne_add_mod index (Nat.succ_pos k) hk
  rw [Nat.add_assoc, Nat.add_comm 1 k]
  exact Slots.get_set_of_ne _ hne _

/-- Taking out the entry on the first slot of a stretch before a vacant slot takes that slot out of
the stretch. -/
theorem eraseAt_spec (hw : t.WellFormed) {index n : ℕ} {slot : Slot α}
    (hget : t.slots.get index = some slot) (hn : n + 1 < t.capacity)
    (hvacant : t.slots.get (index + 1 + n) = none) :
    ∃ u, t.eraseAt index = (some slot, u) ∧ u.WellFormed ∧ u.capacity = t.capacity ∧
      u.slots.get (index + (n + 1)) = none ∧
      u.slots.stretch index (n + 1) = t.slots.stretch (index + 1) n ∧
      slot ::ₘ u.contents = t.contents := by
  obtain ⟨u, herase, hwu, hslots, hcontents⟩ := hw.eraseAt hget
  obtain ⟨m, hmoved, -⟩ := Slots.erase_spec hw.capacity_pos index
  rw [← hslots] at hmoved
  have hmn : m ≤ n := hmoved.le_of_get_none hvacant
  refine ⟨u, herase, hwu, hmoved.capacity, ?_, ?_, hcontents⟩
  · rw [hmoved.kept (n + 1) (by omega) hn, ← hvacant, Nat.add_assoc, Nat.add_comm 1 n]
  · exact Slots.stretch_of_movedBack hmoved hmn (Nat.lt_of_succ_lt hn)

/-! ## The walk in place -/

/-- The walk over the slots up to a vacant one visits the entries on them one after another. -/
theorem sweepFrom_spec (visit : α → σ → Verdict α × σ) {turns slots index : ℕ} {t : Table α}
    (hw : t.WellFormed) (hslots : slots < t.capacity)
    (hvacant : t.slots.get (index + slots) = none)
    (hturns : slots + (t.slots.stretch index slots).length ≤ turns) {others : Multiset (Slot α)}
    (hothers : t.contents = others + t.slots.stretch index slots) (removed : List α) (state : σ) :
    (sweepFrom visit turns slots index t removed state).Visits t.capacity others removed.reverse
      (visitAll visit (t.slots.stretch index slots) state) := by
  induction turns generalizing slots index t others removed state with
  | zero =>
    obtain rfl : slots = 0 := by omega
    rw [sweepFrom]
    exact ⟨hw, rfl, hothers, by simp [visitAll], rfl⟩
  | succ turns ih =>
    cases slots with
    | zero =>
      rw [sweepFrom]
      exact ⟨hw, rfl, hothers, by simp [visitAll], rfl⟩
    | succ slots =>
      have hc := hw.two_le
      have hvacant' : t.slots.get (index + 1 + slots) = none := by rwa [Nat.add_right_comm]
      cases hget : t.slots.get index with
      | none =>
        rw [Slots.stretch_of_get_none hget] at hturns hothers ⊢
        rw [sweepFrom, hget]
        exact ih hw (by omega) hvacant' (by omega) hothers removed state
      | some slot =>
        rw [Slots.stretch_of_get_some hget] at hturns hothers ⊢
        rw [List.length_cons] at hturns
        rw [sweepFrom, hget]
        dsimp only
        -- The entry visited is rewritten in its slot; the slots after it are as they were.
        have hhash : (⟨slot.hash, (visit slot.item state).1.item⟩ : Slot α).hash = slot.hash := rfl
        obtain ⟨hwu, hcap, hself, hexchange, hafter⟩ := setItem_spec hw hget hhash
        generalize t.setItem index ⟨slot.hash, (visit slot.item state).1.item⟩ = u at *
        have hrest : u.slots.stretch (index + 1) slots = t.slots.stretch (index + 1) slots :=
          Slots.stretch_congr fun k hk => hafter k (by omega)
        have hvacantu : u.slots.get (index + 1 + slots) = none := by
          rw [hafter slots hslots, hvacant']
        have hcontents : u.contents = ⟨slot.hash, (visit slot.item state).1.item⟩
            ::ₘ (others + (t.slots.stretch (index + 1) slots : Multiset (Slot α))) := by
          rw [hothers, ← Multiset.cons_coe, Multiset.add_cons, Multiset.cons_swap] at hexchange
          exact (Multiset.cons_inj_right slot).1 hexchange
        cases hkeep : (visit slot.item state).1.keep with
        | true =>
          rw [if_pos rfl]
          rw [← Multiset.cons_add, ← hrest] at hcontents
          have hnext := ih hwu (by omega) hvacantu (by rw [hrest]; omega) hcontents removed
            (visit slot.item state).2
          rw [hrest, hcap] at hnext
          exact hnext.cons_of_keep hkeep
        | false =>
          -- The slots after the gap move back, so the walk goes on at the same slot.
          rw [if_neg Bool.false_ne_true]
          obtain ⟨w, herase, hww, hcapw, hvacantw, hrestw, hcontentsw⟩ :=
            eraseAt_spec hwu hself (by omega) hvacantu
          rw [hcontents] at hcontentsw
          simp only [herase]
          have hnext := ih hww (by omega) hvacantw (by rw [hrestw, hrest]; omega)
            (by rw [hrestw, hrest]; exact (Multiset.cons_inj_right _).1 hcontentsw)
            ((visit slot.item state).1.item :: removed) (visit slot.item state).2
          rw [hrestw, hrest, hcapw, hcap, List.reverse_cons] at hnext
          exact hnext.cons_of_not_keep hkeep

/-! ## The rebuilt table -/

/-- Rebuilding visits the entries of a list one after another and places those kept. -/
theorem rebuildFrom_spec (visit : α → σ → Verdict α × σ) {rest : List (Slot α)} {t : Table α}
    (hw : t.WellFormed) (hroom : t.size + rest.length ≤ t.capacity) (removed : List α)
    (state : σ) :
    (rebuildFrom visit rest t removed state).Visits t.capacity t.contents removed.reverse
      (visitAll visit rest state) := by
  induction rest generalizing t removed state with
  | nil => exact ⟨hw, rfl, by simp [rebuildFrom, visitAll], by simp [rebuildFrom, visitAll], rfl⟩
  | cons slot rest ih =>
    rw [List.length_cons] at hroom
    cases hkeep : (visit slot.item state).1.keep with
    | true =>
      obtain ⟨s, i, hplace, hcap, hplaced⟩ :=
        hw.place (by omega) ⟨slot.hash, (visit slot.item state).1.item⟩
      obtain ⟨hwu, hcontents⟩ := hplaced t.resizing
      have hstep : rebuildFrom visit (slot :: rest) t removed state
          = rebuildFrom visit rest ⟨s, t.size + 1, t.resizing⟩ removed
            (visit slot.item state).2 := by
        rw [rebuildFrom]
        dsimp only
        rw [if_pos hkeep, hplace]
      have hroom' : t.size + 1 + rest.length ≤ s.capacity := by omega
      have hnext := ih hwu hroom' removed (visit slot.item state).2
      have hcapu : (⟨s, t.size + 1, t.resizing⟩ : Table α).capacity = t.capacity := hcap
      rw [hcontents, hcapu] at hnext
      rw [hstep]
      exact hnext.cons_of_keep hkeep
    | false =>
      have hstep : rebuildFrom visit (slot :: rest) t removed state
          = rebuildFrom visit rest t ((visit slot.item state).1.item :: removed)
            (visit slot.item state).2 := by
        rw [rebuildFrom]
        dsimp only
        rw [if_neg (by rw [hkeep]; exact Bool.false_ne_true)]
      have hnext := ih hw (by omega) ((visit slot.item state).1.item :: removed)
        (visit slot.item state).2
      rw [List.reverse_cons] at hnext
      rw [hstep]
      exact hnext.cons_of_not_keep hkeep

/-- A table without its entries is well formed. -/
theorem WellFormed.clear (hw : t.WellFormed) : t.clear.WellFormed :=
  (wellFormed_vacant (α := α) hw.capacity_eq hw.minCapacity_le).with_resizing t.resizing

/-- Keeping some of the entries visits each of them once, in the order of `visitOrder`, and leaves
those that the visits keep. -/
theorem retain_spec (hw : t.WellFormed) (visit : α → σ → Verdict α × σ) (state : σ) :
    (t.retain visit state).Visits t.capacity 0 [] (visitAll visit t.visitOrder state) := by
  have hround := coe_visitOrder hw
  unfold retain visitOrder at *
  cases hfirst : t.slots.firstVacant? with
  | none =>
    have hclear : t.clear.capacity = t.capacity := capacity_clear t
    have hroom : t.clear.size + t.entries.length ≤ t.clear.capacity := by
      rw [hclear, ← hw.size_eq]
      show 0 + t.size ≤ t.capacity
      rw [Nat.zero_add]
      exact hw.size_le
    have hrebuild := rebuildFrom_spec visit hw.clear hroom [] state
    have hnothing : t.clear.contents = 0 := Slots.contents_vacant _
    rw [hclear, hnothing] at hrebuild
    exact hrebuild
  | some vacantIndex =>
    rw [hfirst] at hround
    have hc : 2 ≤ t.capacity := hw.two_le
    have hvacant : t.slots.get (vacantIndex + 1 + (t.capacity - 1)) = none := by
      rw [show vacantIndex + 1 + (t.capacity - 1) = vacantIndex + t.capacity by omega,
        show t.capacity = t.slots.capacity from rfl, Slots.get_add_capacity,
        Slots.get_firstVacant? hfirst]
    refine sweepFrom_spec visit hw (by omega) hvacant ?_ ?_ [] state
    · rw [← Multiset.coe_card, hround, hw.size_eq_card]
    · rw [zero_add, hround]

end Table

end OpenAddressing
