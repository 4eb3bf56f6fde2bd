import Mathlib.Data.Multiset.Filter
import OpenAddressing.Dict.Basic

/-!
# Association maps

An association map lists the entries it holds, at most one for each class of keys that its rules
call the same. It is what a dictionary stands for: `find?` takes the entry of a key's class, `put`
puts an entry in its place and `erase` leaves the class without one. The slots have no places: they
are the number of entries beyond which a map that may not grow takes no more, and how many of them
there are follows from the calls made.

The usual comparisons make classes of keys. `KeyRules.Lawful` is what a comparison of one's own owes
for that: to be an equivalence on keys cut to size, and to relate only keys with the same hash.
-/

namespace OpenAddressing

universe u v

/-! ## Classes of keys -/

/-- A comparison of one's own is an equivalence on keys cut to size, and relates only keys with the
same hash. -/
def KeyRules.Lawful (r : KeyRules) (ignoreCase : Bool) : Prop :=
  ∀ equal, r.equal = some equal →
    (∀ a, equal (r.sized a) (r.sized a) = true) ∧
    (∀ a b, equal (r.sized a) (r.sized b) = true → equal (r.sized b) (r.sized a) = true) ∧
    (∀ a b c, equal (r.sized a) (r.sized b) = true → equal (r.sized b) (r.sized c) = true →
      equal (r.sized a) (r.sized c) = true) ∧
    ∀ a b, equal (r.sized a) (r.sized b) = true → r.hashOf ignoreCase a = r.hashOf ignoreCase b

namespace KeyRules.Lawful

variable {r : KeyRules} {ignoreCase : Bool} {a b c : Bytes}

/-- A key is the same as itself. -/
theorem same_refl (h : r.Lawful ignoreCase) (a : Bytes) : r.same ignoreCase a a = true := by
  unfold same
  cases hequal : r.equal with
  | some equal => exact (h equal hequal).1 a
  | none => cases ignoreCase <;> simp [Bytes.equal, Bytes.equalIgnoringCase]

/-- Which key is stored and which is sought does not matter. -/
theorem same_symm (h : r.Lawful ignoreCase) (hab : r.same ignoreCase a b = true) :
    r.same ignoreCase b a = true := by
  unfold same at hab ⊢
  cases hequal : r.equal with
  | some equal =>
    rw [hequal] at hab
    exact (h equal hequal).2.1 a b hab
  | none =>
    rw [hequal] at hab
    cases ignoreCase
    · exact beq_iff_eq.2 (beq_iff_eq.1 hab).symm
    · exact beq_iff_eq.2 (beq_iff_eq.1 hab).symm

/-- Keys that are the same as a third are the same. -/
theorem same_trans (h : r.Lawful ignoreCase) (hab : r.same ignoreCase a b = true)
    (hbc : r.same ignoreCase b c = true) : r.same ignoreCase a c = true := by
  unfold same at hab hbc ⊢
  cases hequal : r.equal with
  | some equal =>
    rw [hequal] at hab hbc
    exact (h equal hequal).2.2.1 a b c hab hbc
  | none =>
    rw [hequal] at hab hbc
    cases ignoreCase
    · exact beq_iff_eq.2 ((beq_iff_eq.1 hab).trans (beq_iff_eq.1 hbc))
    · exact beq_iff_eq.2 ((beq_iff_eq.1 hab).trans (beq_iff_eq.1 hbc))

/-- Keys that are the same have the same hash. -/
theorem hashOf_eq (h : r.Lawful ignoreCase) (hab : r.same ignoreCase a b = true) :
    r.hashOf ignoreCase a = r.hashOf ignoreCase b := by
  cases hequal : r.equal with
  | some equal =>
    unfold same at hab
    rw [hequal] at hab
    exact (h equal hequal).2.2.2 a b hab
  | none => exact hashOf_eq_of_same hequal hab

end KeyRules.Lawful

/-! ## The map -/

/-- A map from classes of keys to entries. -/
structure AssocMap (ρ : Type v) (α : Type u) where
  /-- The rules that make the classes, and the settings. -/
  config : Config ρ
  /-- The number of entries that fit as long as the map does not grow. -/
  slots : ℕ
  /-- The entries, in no particular order. -/
  entries : List (Entry α)

namespace AssocMap

variable {ρ : Type v} {α : Type u} {m : AssocMap ρ α} {key : Bytes} {e : Entry α}

/-- The entry of the class of a key. -/
def find? (m : AssocMap ρ α) (key : Bytes) : Option (Entry α) :=
  m.entries.find? (m.config.accepts key)

/-- The entries of all other classes. -/
def others (m : AssocMap ρ α) (key : Bytes) : List (Entry α) :=
  m.entries.filter fun e => !m.config.accepts key e

/-- The map with this entry for the class of a key. -/
def put (m : AssocMap ρ α) (key : Bytes) (entry : Entry α) : AssocMap ρ α :=
  { m with entries := entry :: m.others key }

/-- The map without an entry for the class of a key. -/
def erase (m : AssocMap ρ α) (key : Bytes) : AssocMap ρ α := { m with entries := m.others key }

/-- The keys are in different classes. -/
def Apart (m : AssocMap ρ α) (a b : Key) : Prop :=
  m.config.rules.same m.config.settings.ignoreCase a.bytes b.bytes = false

/-- No two entries are in one class. -/
def Distinct (m : AssocMap ρ α) : Prop := m.entries.Pairwise fun a b => m.Apart a.key b.key

/-- The rules of the map make classes of keys. -/
def Lawful (m : AssocMap ρ α) : Prop := m.config.rules.Lawful m.config.settings.ignoreCase

/-- At most one entry is found for a key. -/
theorem Distinct.pairwise_not_accepts (h : m.Distinct) (hl : m.Lawful) (key : Bytes) :
    m.entries.Pairwise fun a b =>
      ¬ (m.config.accepts key a = true ∧ m.config.accepts key b = true) := by
  refine List.Pairwise.imp (fun {a b} hab hboth => ?_) h
  have hsame := hl.same_trans hboth.1 (hl.same_symm hboth.2)
  unfold Apart at hab
  rw [hab] at hsame
  cases hsame

/-- The entries are the one found and the others. -/
theorem cons_others_of_find? (h : m.Distinct) (hl : m.Lawful) (hfind : m.find? key = some e) :
    e ::ₘ (m.others key : Multiset (Entry α)) = m.entries := by
  have honce := h.pairwise_not_accepts hl key
  unfold find? at hfind
  unfold others
  rw [Multiset.cons_coe, Multiset.coe_eq_coe]
  generalize m.entries = l at *
  induction l with
  | nil => cases hfind
  | cons x rest ih =>
    obtain ⟨hx, hrest⟩ := List.pairwise_cons.1 honce
    cases haccept : m.config.accepts key x with
    | true =>
      rw [List.find?_cons_of_pos haccept] at hfind
      obtain rfl := Option.some.inj hfind
      -- None of the entries after the one found is in its class.
      have hnone : ∀ b ∈ rest, (!m.config.accepts key b) = true := fun b hb => by
        rw [Bool.not_eq_true']
        exact Bool.eq_false_iff.2 fun hb' => hx b hb ⟨haccept, hb'⟩
      rw [List.filter_cons_of_neg (by simp [haccept]), List.filter_eq_self.2 hnone]
    | false =>
      rw [List.find?_cons_of_neg (by simp [haccept])] at hfind
      rw [List.filter_cons_of_pos (by simp [haccept])]
      exact (List.Perm.swap _ _ _).trans ((ih hfind hrest).cons x)

/-- The others are one fewer than the entries. -/
theorem length_others_of_find? (h : m.Distinct) (hl : m.Lawful) (hfind : m.find? key = some e) :
    (m.others key).length = m.entries.length - 1 := by
  have hcard := congrArg Multiset.card (cons_others_of_find? h hl hfind)
  rw [Multiset.card_cons, Multiset.coe_card, Multiset.coe_card] at hcard
  omega

/-- When nothing is found, all entries are others. -/
theorem others_of_find?_eq_none (hfind : m.find? key = none) : m.others key = m.entries := by
  refine List.filter_eq_self.2 fun e he => ?_
  rw [Bool.not_eq_true']
  exact Bool.eq_false_iff.2 (List.find?_eq_none.1 hfind e he)

/-- What is found is an entry of the class. -/
theorem accepts_of_find? (hfind : m.find? key = some e) :
    e ∈ m.entries ∧ m.config.accepts key e = true :=
  ⟨List.mem_of_find?_eq_some hfind, List.find?_some hfind⟩

/-- Leaving a class without an entry keeps the others distinct. -/
theorem Distinct.erase (h : m.Distinct) (key : Bytes) : (m.erase key).Distinct :=
  List.Pairwise.sublist List.filter_sublist h

/-- An entry of a class can take the place of another. -/
theorem Distinct.put (h : m.Distinct) (hl : m.Lawful) (haccept : m.config.accepts key e = true) :
    (m.put key e).Distinct := by
  refine List.pairwise_cons.2 ⟨fun b hb => Bool.eq_false_iff.2 fun hsame => ?_, h.erase key⟩
  obtain ⟨-, hother⟩ := List.mem_filter.1 hb
  have hin : m.config.accepts key b = true :=
    hl.same_trans (hl.same_symm hsame) haccept
  rw [hin] at hother
  cases hother

/-- Which of two keys comes first does not matter. -/
theorem Apart.symm (hl : m.Lawful) {a b : Key} (h : m.Apart a b) : m.Apart b a := by
  refine Bool.eq_false_iff.2 fun hsame => ?_
  unfold Apart at h
  rw [hl.same_symm hsame] at h
  cases h

/-- Entries whose keys are some of those of a map, in any order, are distinct. -/
theorem Distinct.of_keys (h : m.Distinct) (hl : m.Lawful) {order entries : List (Entry α)}
    (horder : order.Perm m.entries)
    (hkeys : (entries.map Entry.key).Sublist (order.map Entry.key)) :
    ({ m with entries } : AssocMap ρ α).Distinct := by
  have hmap : (m.entries.map Entry.key).Pairwise m.Apart := List.pairwise_map.2 h
  have hordered : (order.map Entry.key).Pairwise m.Apart :=
    ((horder.map Entry.key).pairwise_iff (Apart.symm hl)).2 hmap
  exact List.pairwise_map.1 (hordered.sublist hkeys)

end AssocMap

end OpenAddressing
