import OpenAddressing.Text.Extending
import OpenAddressing.Text.Unprinted

/-!
# Visible characters

A character is visible when it has a shape of its own: it is printed, it does not hang on the
character before it, and it is not a filler that stands for a letter left out. The two halfwidth
sound marks extend a character but take a cell of their own, so they are visible.
-/

namespace OpenAddressing.Text

/-- The halfwidth voiced and semi-voiced sound marks, which extend a character and are yet drawn in
a cell of their own. -/
def halfwidthSoundMarks : Ranges := [(0xff9e, 0xff9f)]

/-- The fillers that stand for a letter left out, letters by category but drawn as nothing. -/
def fillers : Ranges := [(0x115f, 0x1160), (0x3164, 0x3164), (0xffa0, 0xffa0)]

/-- Whether a character has a visible form of its own, the ASCII space included. -/
def isVisible (c : Char) : Bool :=
  let n := c.toNat
  !unprinted.contains n && !fillers.contains n &&
    (!extending.contains n || halfwidthSoundMarks.contains n)

/-- No ASCII control character is visible. -/
theorem isVisible_eq_false_of_control {c : Char} (h : c.toNat < 0x20) : isVisible c = false := by
  have h1 : unprinted.contains c.toNat = true :=
    (Ranges.contains_iff isAscending_unprinted _).2
      ⟨(0x0, 0x1f), List.mem_cons_self, by simp, by simp; omega⟩
  simp [isVisible, h1]

/-- The ASCII space, letters, digits and marks are visible. -/
theorem isVisible_of_ascii {c : Char} (h : 0x20 ≤ c.toNat) (h' : c.toNat < 0x7f) :
    isVisible c = true := by
  have key : ∀ n < 0x7f, 0x20 ≤ n →
      unprinted.contains n = false ∧ fillers.contains n = false ∧ extending.contains n = false := by
    decide +kernel
  obtain ⟨h1, h2, h3⟩ := key c.toNat h' h
  simp [isVisible, h1, h2, h3]

end OpenAddressing.Text
