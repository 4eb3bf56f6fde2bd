import OpenAddressing.Proofs.Table.Calls

/-!
# A change of the slots is not soon undone

An insertion or removal that leaves more slots has doubled them, and then at least three eighths of
them are taken (`doubled_of_growth`); one that leaves fewer has halved them, and then at most two
fifths of them are taken (`halved_of_shrinking`). In terms of the slots before, these are at least
three quarters and at most one fifth.

The size changes by the entries added and taken out in between, so `7 / 40` of the slots are removals
before a growth is undone and `7 / 20` of them insertions before a shrinking is undone
(`Hysteresis`). That is more than one call, whatever the number of slots is.
-/

namespace OpenAddressing

universe u

namespace Table

variable {α : Type u} {t : Table α} {policy : ResizePolicy} {call : Call α}

/-! ## What a change of the slots says about the load -/

/-- An insertion or removal that leaves more slots has doubled them. -/
theorem doubled_of_growth (h : t.Reachable) (hcall : call.Updates policy)
    (hgrowth : t.capacity < (t.perform call).state.capacity) : Doubled t (t.perform call).state := by
  have hw := h.wellFormed
  cases call with
  | insert available policy' hash item eq =>
    rw [perform] at hgrowth ⊢
    rcases insert_sizes hw available policy' hash item eq with ⟨old, u, heq, -, hcap⟩ |
      ⟨u, heq, -, ⟨hcap, -⟩ | hdouble⟩ | ⟨e, u, heq, -, -, hcap | hdouble⟩
    · rw [heq] at hgrowth
      exact absurd hcap hgrowth.ne'
    · rw [heq] at hgrowth
      exact absurd hcap hgrowth.ne'
    · rw [heq]
      exact hdouble
    · rw [heq] at hgrowth
      exact absurd hcap hgrowth.ne'
    · rw [heq]
      exact hdouble
  | remove available policy' hash eq =>
    rw [perform] at hgrowth
    rcases remove_sizes hw h.capacity_lt_limit available policy' hash eq with heq |
      ⟨item, u, heq, -, ⟨hcap, -⟩ | ⟨-, hhalve⟩⟩
    · rw [heq] at hgrowth
      exact absurd rfl hgrowth.ne'
    · rw [heq] at hgrowth
      exact absurd hcap hgrowth.ne'
    · have htwice := hhalve.capacity_eq
      rw [heq] at hgrowth
      dsimp only at hgrowth
      omega
  | _ => exact hcall.elim

/-- An insertion or removal that leaves fewer slots has halved them. -/
theorem halved_of_shrinking (h : t.Reachable) (hcall : call.Updates policy)
    (hshrinking : (t.perform call).state.capacity < t.capacity) :
    Halved t (t.perform call).state := by
  have hw := h.wellFormed
  cases call with
  | insert available policy' hash item eq =>
    rw [perform] at hshrinking
    have hmore : t.capacity ≤ (t.insert available policy' hash item eq).state.capacity := by
      rcases insert_sizes hw available policy' hash item eq with ⟨old, u, heq, -, hcap⟩ |
        ⟨u, heq, -, ⟨hcap, -⟩ | hdouble⟩ | ⟨e, u, heq, -, -, hcap | hdouble⟩
      · rw [heq, hcap]
      · rw [heq, hcap]
      · rw [heq, hdouble.capacity_eq]
        omega
      · rw [heq, hcap]
      · rw [heq, hdouble.capacity_eq]
        omega
    exact absurd hshrinking (Nat.not_lt.2 hmore)
  | remove available policy' hash eq =>
    rw [perform] at hshrinking ⊢
    rcases remove_sizes hw h.capacity_lt_limit available policy' hash eq with heq |
      ⟨item, u, heq, -, ⟨hcap, -⟩ | ⟨-, hhalve⟩⟩
    · rw [heq] at hshrinking
      exact absurd rfl hshrinking.ne
    · rw [heq] at hshrinking
      exact absurd hcap hshrinking.ne
    · rw [heq]
      exact hhalve
  | _ => exact hcall.elim

/-! ## From one change to the next -/

/-- Between a growth and a shrinking that comes upon as many slots, the entries have become fewer by
`7 / 40` of the slots. -/
theorem Doubled.seven_mul_le_of_halved {u v w : Table α} (hdouble : Doubled t u)
    (hhalve : Halved v w) (hsteady : v.capacity = u.capacity) :
    7 * u.capacity ≤ 40 * (u.size - w.size) := by
  have hmany := hdouble.load
  have hfew : 5 * w.size ≤ u.capacity := by
    calc 5 * w.size ≤ 2 * w.capacity := hhalve.load
      _ = v.capacity := hhalve.capacity_eq
      _ = u.capacity := hsteady
  calc 7 * u.capacity = 5 * (3 * u.capacity) - 8 * u.capacity := by omega
    _ ≤ 5 * (8 * u.size) - 8 * (5 * w.size) := by omega
    _ = 40 * (u.size - w.size) := by omega

/-- Between a shrinking and a growth that comes upon as many slots, the entries have become more by
`7 / 20` of the slots. -/
theorem Halved.seven_mul_le_of_doubled {u v w : Table α} (hhalve : Halved t u)
    (hdouble : Doubled v w) (hsteady : v.capacity = u.capacity) :
    7 * u.capacity ≤ 20 * (w.size - u.size) := by
  have hfew := hhalve.load
  have hmany : 3 * u.capacity ≤ 4 * w.size := by
    have hload := hdouble.load
    rw [hdouble.capacity_eq, hsteady] at hload
    omega
  calc 7 * u.capacity = 5 * (3 * u.capacity) - 4 * (2 * u.capacity) := by omega
    _ ≤ 5 * (4 * w.size) - 4 * (5 * u.size) := by omega
    _ = 20 * (w.size - u.size) := by omega

/-- How late a change of the slots is undone that has made `u` of `t`. The calls from `u` on include
the one that undoes it. -/
structure Hysteresis (t u : Table α) (calls : List (Call α)) : Prop where
  /-- A growth is undone after `7 / 40` of the slots in removals, and at least two. -/
  removals_le : t.capacity < u.capacity → (u.after calls).capacity < u.capacity →
    7 * u.capacity ≤ 40 * u.removals calls ∧ 2 ≤ u.removals calls
  /-- A shrinking is undone after `7 / 20` of the slots in insertions of new entries, and at least
  two. -/
  additions_le : u.capacity < t.capacity → u.capacity < (u.after calls).capacity →
    7 * u.capacity ≤ 20 * u.additions calls ∧ 2 ≤ u.additions calls

/-- In every table that comes about, a change of the slots by an insertion or removal is undone only
after as many updates as `Hysteresis` says. The last update comes upon as many slots as the first has
left, as it does when none between them has changed their number. -/
theorem hysteresis_of_reachable (h : t.Reachable) {first last : Call α} {calls : List (Call α)}
    (hupdates : ∀ call ∈ first :: (calls ++ [last]), call.Updates .growAndShrink)
    (hsteady : (t.after (first :: calls)).capacity = (t.after [first]).capacity) :
    Hysteresis t (t.after [first]) (calls ++ [last]) := by
  obtain ⟨hfirst, hrest⟩ := List.forall_mem_cons.1 hupdates
  have hlast : last.Updates .growAndShrink := hrest last (by simp)
  change ((t.perform first).state.after calls).capacity = (t.perform first).state.capacity
    at hsteady
  show Hysteresis t (t.perform first).state (calls ++ [last])
  have hu := h.perform first
  have hgrown := doubled_of_growth h hfirst
  have hshrunk := halved_of_shrinking h hfirst
  have hmin := h.wellFormed.four_le
  generalize (t.perform first).state = u at hu hgrown hshrunk hsteady ⊢
  have hmin' := hu.wellFormed.four_le
  have hv := hu.after calls
  have hbalance := size_after_add_removals hu hrest
  have hend : u.after (calls ++ [last]) = ((u.after calls).perform last).state :=
    after_append u calls [last]
  constructor
  · intro hgrowth hshrinking
    rw [hend] at hshrinking hbalance
    have hdouble := hgrown hgrowth
    have hhalve := halved_of_shrinking hv hlast (hsteady ▸ hshrinking)
    have hbound : 7 * u.capacity ≤ 40 * u.removals (calls ++ [last]) := by
      have hfewer := hdouble.seven_mul_le_of_halved hhalve hsteady
      omega
    -- Growth leaves at least eight slots, and `7 / 40` of eight is more than one.
    have height : 8 ≤ u.capacity := by
      rw [hdouble.capacity_eq]
      omega
    exact ⟨hbound, by omega⟩
  · intro hshrinking hgrowth
    rw [hend] at hgrowth hbalance
    have hhalve := hshrunk hshrinking
    have hdouble := doubled_of_growth hv hlast (hsteady ▸ hgrowth)
    have hbound : 7 * u.capacity ≤ 20 * u.additions (calls ++ [last]) := by
      have hmore := hhalve.seven_mul_le_of_doubled hdouble hsteady
      omega
    -- There are at least four slots, and `7 / 20` of four is more than one.
    exact ⟨hbound, by omega⟩

/-- The third entry doubles four slots, and two removals halve them again; the third entry after
that doubles them once more. -/
theorem hysteresis_of_growth_and_shrinking :
    let insert (n : UInt32) : Call UInt32 := .insert (fun _ => true) .growAndShrink n n (· == n)
    let remove (n : UInt32) : Call UInt32 := .remove (fun _ => true) .growAndShrink n (· == n)
    let small := (empty : Table UInt32).after [insert 1, insert 2]
    let large := small.after [insert 3, remove 1]
    ([small, small.after [insert 3], small.after [insert 3, remove 1, remove 2]].map capacity
        = [4, 8, 4] ∧ Hysteresis small (small.after [insert 3]) [remove 1, remove 2]) ∧
      [large, large.after [remove 2], large.after [remove 2, insert 2, insert 1]].map capacity
        = [8, 4, 8] ∧ Hysteresis large (large.after [remove 2]) [insert 2, insert 1] := by
  intro insert remove small large
  have hsmall : small.Reachable := Reachable.empty.after [insert 1, insert 2]
  have hlarge : large.Reachable := hsmall.after [insert 3, remove 1]
  have hgrown : Hysteresis small (small.after [insert 3]) ([remove 1] ++ [remove 2]) :=
    hysteresis_of_reachable hsmall (by simp [insert, remove, Call.Updates]) (by decide +kernel)
  have hshrunk : Hysteresis large (large.after [remove 2]) ([insert 2] ++ [insert 1]) :=
    hysteresis_of_reachable hlarge (by simp [insert, remove, Call.Updates]) (by decide +kernel)
  exact ⟨⟨by decide +kernel, hgrown⟩, by decide +kernel, hshrunk⟩

end Table

end OpenAddressing
