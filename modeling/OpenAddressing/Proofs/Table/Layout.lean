import OpenAddressing.Proofs.Slots.Layout
import OpenAddressing.Proofs.Table.Reachable
import OpenAddressing.Table.Stats

/-!
# The layout does not depend on history

Two tables have the same layout when they have as many slots and each slot of the one is vacant, or
holds an entry of some home bucket at some displacement, exactly as that slot of the other
(`SameLayout`). The displacement histogram can be read off the layout.

A table that comes about is in robin-hood order and a run starts in it, so its layout is determined
by the home buckets of its entries (`WellFormed.sameLayout`). `sameLayout_of_reachable` says so of
any two histories, of insertions in another order, and of an insertion that is undone.
-/

namespace OpenAddressing

universe u v

namespace Table

variable {α : Type u} {β : Type v} {t : Table α} {u : Table β}

/-- The home buckets of the entries, in no order. -/
def homes (t : Table α) : Multiset ℕ := t.contents.map fun slot => home slot.hash t.capacity

/-- The tables look the same slot by slot, but for the items and what the hashes are beyond the home
buckets. -/
structure SameLayout (t : Table α) (u : Table β) : Prop where
  /-- There are as many slots. -/
  capacity : t.capacity = u.capacity
  /-- Each slot is vacant in both tables or holds entries with the same home bucket. -/
  home : ∀ i, (t.slots.get i).map (fun slot => home slot.hash t.capacity)
    = (u.slots.get i).map fun slot => home slot.hash u.capacity
  /-- They have the same displacement. -/
  displacement : ∀ i, (t.slots.get i).map (fun slot => displacement slot.hash i t.capacity)
    = (u.slots.get i).map fun slot => displacement slot.hash i u.capacity
  /-- So many entries have each displacement in both. -/
  histogram : t.histogram = u.histogram

/-- The displacements are those of the slots in order. -/
theorem displacements_eq (t : Table α) : t.displacements
    = (List.range t.capacity).filterMap fun i =>
      (t.slots.get i).map fun slot => displacement slot.hash i t.capacity := by
  have hcells : t.slots.cells.toList.zipIdx
      = (List.range t.capacity).map fun i => (t.slots.get i, i) := by
    refine List.ext_getElem (by simp [capacity, Slots.capacity]) fun i h1 h2 => ?_
    rw [List.length_zipIdx, Array.length_toList] at h1
    rw [List.getElem_zipIdx, List.getElem_map, List.getElem_range, Array.getElem_toList,
      Slots.get_of_lt t.slots h1, Nat.zero_add]
  rw [displacements, hcells, List.filterMap_map]
  rfl

/-- Tables with as many slots whose entries have the same home buckets have the same layout. -/
theorem WellFormed.sameLayout (ht : t.WellFormed) (hu : u.WellFormed)
    (hcap : t.capacity = u.capacity) (hhomes : t.homes = u.homes) : SameLayout t u := by
  have hc := ht.capacity_pos
  have hdepth := Slots.depth_eq_of_homes_eq ht.ordered ht.hasRunStart hu.ordered hu.hasRunStart hc
    hcap hhomes
  have hslot := fun i => Slots.map_home_eq_of_depth_eq hc hcap (hdepth i)
  refine ⟨hcap, fun i => (hslot i).1, fun i => (hslot i).2, ?_⟩
  have hdisplacements : t.displacements = u.displacements := by
    rw [displacements_eq, displacements_eq, show List.range t.capacity = List.range u.capacity by
      rw [hcap]]
    exact List.filterMap_congr fun i _ => (hslot i).2
  rw [histogram, histogram, hdisplacements]

/-- Tables with as many slots whose entries have the same hashes have the same home buckets. -/
theorem homes_eq_of_hashes_eq (hcap : t.capacity = u.capacity)
    (h : t.contents.map Slot.hash = u.contents.map Slot.hash) : t.homes = u.homes := by
  have hhash := congrArg (Multiset.map fun hash => OpenAddressing.home hash t.capacity) h
  rw [Multiset.map_map, Multiset.map_map] at hhash
  unfold homes
  rw [← hcap]
  exact hhash

/-! ## Insertions in a row -/

/-- New entries go into a table one after another, each under a policy of its own. -/
inductive Inserted : Table α → List (Slot α) → Table α → Prop where
  /-- No entry. -/
  | nil (t : Table α) : Inserted t [] t
  /-- An insertion that replaces nothing, and further ones. -/
  | cons {t u v : Table α} {slot : Slot α} {rest : List (Slot α)} (available : Allocator)
      (policy : ResizePolicy) (eq : α → Bool)
      (h : t.insert available policy slot.hash slot.item eq = ⟨.ok none, u⟩)
      (hrest : Inserted u rest v) : Inserted t (slot :: rest) v

/-- Insertions add their entries to those of a table. -/
theorem Inserted.spec {t u : Table α} {added : List (Slot α)} (h : Inserted t added u)
    (hw : t.WellFormed) : u.WellFormed ∧ u.contents = (added : Multiset (Slot α)) + t.contents := by
  induction h with
  | nil t => exact ⟨hw, by simp⟩
  | @cons t u v slot rest available policy eq h _ ih =>
    have hwu := hw.insert available policy slot.hash slot.item eq
    rw [h] at hwu
    obtain ⟨hwv, hcont⟩ := ih hwu
    refine ⟨hwv, ?_⟩
    rw [hcont, hw.contents_of_insert h, ← Multiset.cons_coe, Multiset.add_cons, Multiset.cons_add]

/-! ## Any history -/

/-- The layout of a table that comes about, completely full ones included, depends only on the
number of its slots and the home buckets of its entries: not on the calls that led to it, not on
the order in which entries were inserted, and not on an entry that has been removed again. -/
theorem sameLayout_of_reachable (ht : t.Reachable) :
    (u.Reachable → t.capacity = u.capacity → t.homes = u.homes → SameLayout t u) ∧
    (∀ {l l' : List (Slot α)} {a b : Table α}, Inserted t l a → Inserted t l' b →
      (l.map Slot.hash).Perm (l'.map Slot.hash) → a.capacity = b.capacity → SameLayout a b) ∧
    ∀ (available : Allocator) (policy : ResizePolicy) (hash : UInt32) (item : α) (eq : α → Bool)
      (a : Table α), t.insert available policy hash item eq = ⟨.ok none, a⟩ →
      ∀ (available' : Allocator) (policy' : ResizePolicy) (eq' : α → Bool) (item' : α)
        (b : Table α), a.remove available' policy' hash eq' = ⟨.ok item', b⟩ →
        b.capacity = t.capacity → SameLayout b t := by
  have hw := ht.wellFormed
  refine ⟨fun hu hcap hhomes => hw.sameLayout hu.wellFormed hcap hhomes, ?_, ?_⟩
  -- Both orders of inserting add the same hashes to those of `t`.
  · intro l l' a b ha hb hperm hcap
    obtain ⟨hwa, hca⟩ := ha.spec hw
    obtain ⟨hwb, hcb⟩ := hb.spec hw
    refine hwa.sameLayout hwb hcap (homes_eq_of_hashes_eq hcap ?_)
    rw [hca, hcb, Multiset.map_add, Multiset.map_add, Multiset.map_coe, Multiset.map_coe,
      Multiset.coe_eq_coe.2 hperm]
  -- The entry taken out has the hash of the one that was added.
  · intro available policy hash item eq a ha available' policy' eq' item' b hb hcap
    have hwa := hw.insert available policy hash item eq
    rw [ha] at hwa
    have hwb := hwa.remove available' policy' hash eq'
    rw [hb] at hwb
    refine hwb.sameLayout hw hcap (homes_eq_of_hashes_eq hcap ?_)
    have hadd := congrArg (Multiset.map Slot.hash) (hw.contents_of_insert ha)
    have htake := congrArg (Multiset.map Slot.hash) (hwa.contents_of_remove hb)
    rw [Multiset.map_cons] at hadd htake
    exact (Multiset.cons_inj_right hash).1 (htake.trans hadd)

/-- Two full tables of other hashes inserted in another order, the second one after an entry has
come and gone, two orders of inserting, and an insertion that is undone. -/
theorem sameLayout_of_full : ∃ t u a b c d : Table ℕ, t.Reachable ∧ u.Reachable ∧
    t.size = t.capacity ∧ t.entries ≠ u.entries ∧ SameLayout t u ∧
    Inserted empty [⟨3, 0⟩, ⟨0, 1⟩] a ∧ Inserted empty [⟨0, 5⟩, ⟨3, 6⟩] b ∧ SameLayout a b ∧
    b.insert (fun _ => true) .disabled 3 7 (fun _ => false) = ⟨.ok none, c⟩ ∧
    c.remove (fun _ => true) .disabled 3 (· == 7) = ⟨.ok 7, d⟩ ∧ SameLayout d b := by
  have hadd : ∀ {t : Table ℕ} (hash : UInt32) (item : ℕ), t.Reachable →
      (t.insert (fun _ => true) .disabled hash item fun _ => false).state.Reachable :=
    fun hash item ht => .step ht (.insert _ _ _ hash item _)
  have ht := hadd 0 1 (hadd 11 1 (hadd 7 1 (hadd 3 1 .empty)))
  have hgone := Reachable.step (hadd 5 1 (hadd 8 1 .empty))
    (.remove _ (fun _ => true) .disabled 5 (· == 1))
  have hu := hadd 11 1 (hadd 15 1 (hadd 7 1 hgone))
  have hempty := sameLayout_of_reachable (u := (empty : Table ℕ))
    (.empty : (empty : Table ℕ).Reachable)
  have ha : Inserted (empty : Table ℕ) [⟨3, 0⟩, ⟨0, 1⟩] _ :=
    .cons (fun _ => true) .disabled (fun _ => false) rfl
      (.cons (fun _ => true) .disabled (fun _ => false) rfl (.nil _))
  have hb : Inserted (empty : Table ℕ) [⟨0, 5⟩, ⟨3, 6⟩] _ :=
    .cons (fun _ => true) .disabled (fun _ => false) rfl
      (.cons (fun _ => true) .disabled (fun _ => false) rfl (.nil _))
  have hundo := (sameLayout_of_reachable (u := (empty : Table ℕ)) (hadd 3 6 (hadd 0 5 .empty))).2.2
    (fun _ => true) .disabled 3 7 (fun _ => false) _ rfl
    (fun _ => true) .disabled (· == 7) 7 _ rfl rfl
  exact ⟨_, _, _, _, _, _, ht, hu, by decide, by decide,
    (sameLayout_of_reachable ht).1 hu (by decide) (by decide), ha, hb,
    hempty.2.1 ha hb (by decide) (by decide), rfl, rfl, hundo⟩

end Table

end OpenAddressing
