import Mathlib.Data.FinEnum
import OpenAddressing.Key.Basic

/-!
# Murmur3 separates keys that differ in one block

Every step of the hash can be undone. A word is had back from its product with an odd constant
(`mul_injective`), from its bits turned round (`rotateLeft_injective`), and, one bit after the other
from the top, from its exclusive or with itself shifted right (`foldRight_injective`). A block is
therefore absorbed without loss: the new state gives back the old one if the block is known, and the
block if the old state is (`absorb_right_injective`, `absorb_left_injective`). The final mix loses
nothing either (`finish_injective`).

Strings that differ in one block bring the state to one word before that block and to two after it,
and the blocks that follow, the same for both, keep the two apart (`DifferWithin.absorbAll_ne`).
`hash_separates` states what this means for the hash, for its seed and for keys.
-/

namespace OpenAddressing.Murmur3

/-! ## Bits of words -/

/-- The bits of a word end below the thirty-second. -/
theorem testBit_of_le (x : UInt32) {i : ℕ} (h : 32 ≤ i) : x.toNat.testBit i = false :=
  Nat.testBit_lt_two_pow (x.toNat_lt.trans_le (Nat.pow_le_pow_right (by decide) h))

/-- Words with the same bits are the same. -/
theorem eq_of_testBit {x y : UInt32} (h : ∀ i < 32, x.toNat.testBit i = y.toNat.testBit i) :
    x = y := by
  refine UInt32.toNat_inj.1 (Nat.eq_of_testBit_eq fun i => ?_)
  rcases Nat.lt_or_ge i 32 with hi | hi
  · exact h i hi
  · rw [testBit_of_le x hi, testBit_of_le y hi]

/-- Turning a word left by `n` moves its bit `i` by `n` places, round the end. -/
theorem testBit_rotateLeft (x : UInt32) {n : UInt32} (h0 : 0 < n.toNat) (h : n.toNat < 32) {i : ℕ}
    (hi : i < 32) :
    (rotateLeft x n).toNat.testBit ((i + n.toNat) % 32) = x.toNat.testBit i := by
  have hn : n.toNat % 32 = n.toNat := Nat.mod_eq_of_lt h
  have hsub : (32 - n).toNat = 32 - n.toNat :=
    UInt32.toNat_sub_of_le _ _ (UInt32.le_iff_toNat_le.2 h.le)
  have hrest : (32 - n).toNat % 32 = 32 - n.toNat := by omega
  rw [rotateLeft, UInt32.toNat_or, UInt32.toNat_shiftLeft, UInt32.toNat_shiftRight, hn, hrest,
    Nat.testBit_or, Nat.testBit_mod_two_pow, Nat.testBit_shiftLeft, Nat.testBit_shiftRight]
  rcases Nat.lt_or_ge (i + n.toNat) 32 with hlt | hge
  · -- The bit stays within the word, and nothing comes in from its other end.
    have hhigh := testBit_of_le x (show 32 ≤ 32 - n.toNat + (i + n.toNat) by omega)
    simp [Nat.mod_eq_of_lt hlt, hlt, hhigh]
  · -- The bit goes over the end, where the first shift leaves nothing.
    have hlow : ¬ n.toNat ≤ i + n.toNat - 32 := by omega
    rw [show (i + n.toNat) % 32 = i + n.toNat - 32 by omega,
      show 32 - n.toNat + (i + n.toNat - 32) = i by omega]
    simp [hlow]

/-- A bit of a word folded right is the exclusive or of two bits of the word. -/
theorem testBit_foldRight (x : UInt32) {n : UInt32} (h : n.toNat < 32) (i : ℕ) :
    (foldRight x n).toNat.testBit i = (x.toNat.testBit i ^^ x.toNat.testBit (n.toNat + i)) := by
  rw [foldRight, UInt32.toNat_xor, UInt32.toNat_shiftRight, Nat.mod_eq_of_lt h, Nat.testBit_xor,
    Nat.testBit_shiftRight]

/-! ## Steps that lose nothing -/

/-- A factor with an inverse loses nothing. -/
theorem mul_injective {c d : UInt32} (h : c * d = 1) : Function.Injective (· * c) := by
  intro x y hxy
  calc x = x * (c * d) := by rw [h, UInt32.mul_one]
    _ = x * c * d := (UInt32.mul_assoc x c d).symm
    _ = y * c * d := congrArg (· * d) hxy
    _ = y * (c * d) := UInt32.mul_assoc y c d
    _ = y := by rw [h, UInt32.mul_one]

/-- Turning a word loses nothing. -/
theorem rotateLeft_injective {n : UInt32} (h0 : 0 < n.toNat) (h : n.toNat < 32) :
    Function.Injective (rotateLeft · n) := by
  intro x y hxy
  refine eq_of_testBit fun i hi => ?_
  have hbit := congrArg (fun z : UInt32 => z.toNat.testBit ((i + n.toNat) % 32)) hxy
  dsimp only at hbit
  rwa [testBit_rotateLeft x h0 h hi, testBit_rotateLeft y h0 h hi] at hbit

/-- Folding a word right by at least one place loses nothing. -/
theorem foldRight_injective {n : UInt32} (h0 : 0 < n.toNat) (h : n.toNat < 32) :
    Function.Injective (foldRight · n) := by
  intro x y hxy
  -- Each bit is had back from a higher one, so the induction is on how many of the highest are.
  have hbits : ∀ k ≤ 32, ∀ i, 32 - k ≤ i → x.toNat.testBit i = y.toNat.testBit i := fun k => by
    induction k with
    | zero =>
      intro _ i hi
      rw [testBit_of_le x hi, testBit_of_le y hi]
    | succ k ih =>
      intro hk i hi
      have hhigher := ih (by omega) (n.toNat + i) (by omega)
      have hbit := congrArg (fun z : UInt32 => z.toNat.testBit i) hxy
      dsimp only at hbit
      rw [testBit_foldRight x h, testBit_foldRight y h, hhigher] at hbit
      exact Bool.xor_left_inj.1 hbit
  exact eq_of_testBit fun i _ => hbits 32 (Nat.le_refl _) i (by omega)

/-- A block is scrambled without loss. -/
theorem scramble_injective : Function.Injective scramble := by
  have hfirst : Function.Injective fun k : UInt32 => k * 0xcc9e2d51 :=
    mul_injective (d := 0xdee13bb1) (by decide)
  have hlast : Function.Injective fun k : UInt32 => k * 0x1b873593 :=
    mul_injective (d := 0x56ed309b) (by decide)
  exact hlast.comp ((rotateLeft_injective (by decide) (by decide)).comp hfirst)

/-- The state after a block tells the exclusive or of the state before it and the block. -/
theorem xor_eq_of_absorb_eq {h h' k k' : UInt32} (heq : absorb h k = absorb h' k') :
    h ^^^ scramble k = h' ^^^ scramble k' := by
  have hfactor : Function.Injective fun x : UInt32 => x * 5 :=
    mul_injective (d := 0xcccccccd) (by decide)
  have hturned := hfactor ((UInt32.add_left_inj _).1 heq)
  exact rotateLeft_injective (by decide) (by decide) hturned

/-- If the block is known, the state after it tells the state before it. -/
theorem absorb_right_injective (k : UInt32) : Function.Injective (absorb · k) :=
  fun _ _ heq => (UInt32.xor_left_inj _).1 (xor_eq_of_absorb_eq heq)

/-- If the state before it is known, the state after a block tells the block. -/
theorem absorb_left_injective (h : UInt32) : Function.Injective (absorb h) :=
  fun _ _ heq => scramble_injective ((UInt32.xor_right_inj _).1 (xor_eq_of_absorb_eq heq))

/-- The final mix loses nothing. -/
theorem finish_injective : Function.Injective finish := by
  have hfirst : Function.Injective fun h : UInt32 => h * 0x85ebca6b :=
    mul_injective (d := 0xa5cb9243) (by decide)
  have hlast : Function.Injective fun h : UInt32 => h * 0xc2b2ae35 :=
    mul_injective (d := 0x7ed1b41d) (by decide)
  have houter : Function.Injective (foldRight · 16) := foldRight_injective (by decide) (by decide)
  have hinner : Function.Injective (foldRight · 13) := foldRight_injective (by decide) (by decide)
  exact houter.comp (hlast.comp (hinner.comp (hfirst.comp houter)))

/-! ## Blocks of bytes -/

/-- A byte moved up by at most three bytes stays within the word. -/
theorem toNat_byte_shiftLeft (x : UInt8) {n : UInt32} (h : n.toNat ≤ 24) :
    (x.toUInt32 <<< n).toNat = x.toNat <<< n.toNat := by
  have hx := x.toNat_lt
  rw [UInt32.toNat_shiftLeft, UInt8.toNat_toUInt32, Nat.mod_eq_of_lt (show n.toNat < 32 by omega)]
  apply Nat.mod_eq_of_lt
  calc x.toNat <<< n.toNat = x.toNat * 2 ^ n.toNat := Nat.shiftLeft_eq ..
    _ < 2 ^ 8 * 2 ^ n.toNat := Nat.mul_lt_mul_of_pos_right hx (Nat.two_pow_pos _)
    _ ≤ 2 ^ 8 * 2 ^ 24 := Nat.mul_le_mul_left _ (Nat.pow_le_pow_right (by decide) h)

/-- A word is the sum of its bytes, each at its place. -/
theorem toNat_word (a b c d : UInt8) : (word a b c d).toNat
    = a.toNat + 2 ^ 8 * b.toNat + 2 ^ 16 * c.toNat + 2 ^ 24 * d.toNat := by
  have ha : a.toNat < 2 ^ 8 := a.toNat_lt
  have hb : b.toNat < 2 ^ 8 := b.toNat_lt
  have hc : c.toNat < 2 ^ 8 := c.toNat_lt
  -- Bits above all those of a number are added to it.
  have hor : ∀ x y k : ℕ, x < 2 ^ k → x ||| y <<< k = x + 2 ^ k * y := fun x y k hx => by
    rw [Nat.or_comm, ← Nat.shiftLeft_add_eq_or_of_lt hx, Nat.shiftLeft_eq, Nat.add_comm,
      Nat.mul_comm]
  rw [word, UInt32.toNat_or, UInt32.toNat_or, UInt32.toNat_or, toNat_byte_shiftLeft b (by decide),
    toNat_byte_shiftLeft c (by decide), toNat_byte_shiftLeft d (by decide), UInt8.toNat_toUInt32]
  simp only [UInt32.reduceToNat]
  rw [hor _ _ 8 ha, hor _ _ 16 (by omega), hor _ _ 24 (by omega)]

/-- A word tells its bytes. -/
theorem word_injective {a b c d a' b' c' d' : UInt8} (h : word a b c d = word a' b' c' d') :
    a = a' ∧ b = b' ∧ c = c' ∧ d = d' := by
  have hsum := congrArg UInt32.toNat h
  rw [toNat_word, toNat_word] at hsum
  have ha := a.toNat_lt
  have hb := b.toNat_lt
  have hc := c.toNat_lt
  have ha' := a'.toNat_lt
  have hb' := b'.toNat_lt
  have hc' := c'.toNat_lt
  simp only [← UInt8.toNat_inj]
  omega

/-- A whole block is absorbed before the rest. -/
theorem absorbAll_block (h : UInt32) (a b c d : UInt8) (rest : Bytes) :
    absorbAll h (a :: b :: c :: d :: rest) = absorbAll (absorb h (word a b c d)) rest := by
  conv_lhs => unfold absorbAll

/-- If the bytes are known, the state after them tells the state before them. -/
theorem absorbAll_injective (bytes : Bytes) : Function.Injective (absorbAll · bytes) := by
  intro h h' heq
  dsimp only at heq
  fun_induction absorbAll h bytes generalizing h' with
  | case1 h a b c d rest ih =>
    rw [absorbAll_block] at heq
    exact absorb_right_injective _ (ih heq)
  | case2 h a b c => exact (UInt32.xor_left_inj _).1 heq
  | case3 h a b => exact (UInt32.xor_left_inj _).1 heq
  | case4 h a => exact (UInt32.xor_left_inj _).1 heq
  | case5 h => exact heq

/-- The hash tells the state after the bytes, if their number is known. -/
theorem absorbAll_eq_of_hash_eq {x y : Bytes} {seed seed' : UInt32}
    (hlength : x.length = y.length) (h : hash x seed = hash y seed') :
    absorbAll seed x = absorbAll seed' y := by
  have hmixed := finish_injective h
  rw [hlength] at hmixed
  exact (UInt32.xor_left_inj _).1 hmixed

/-! ## Strings that differ in one block -/

/-- Two strings of one length that differ in some of the four bytes from `4 * block` on, or of those
of them that there are at the end, and agree in all others. -/
structure DifferWithin (block : ℕ) (x y : Bytes) : Prop where
  /-- They have the same length. -/
  length_eq : x.length = y.length
  /-- They are not the same. -/
  ne : x ≠ y
  /-- Outside the block they are. -/
  agree : ∀ i, i / 4 ≠ block → x[i]? = y[i]?

namespace DifferWithin

variable {block : ℕ} {x y front here here' back rest rest' : Bytes} {a b c d a' b' c' d' : UInt8}

/-- So do strings with whole blocks in common before a block, complete or last, in which they
differ, and with all bytes in common after it. -/
theorem of_append (hfront : front.length = 4 * block) (hlength : here.length = here'.length)
    (hwhole : here.length = 4 ∨ here.length < 4 ∧ back = []) (hne : here ≠ here') :
    DifferWithin block (front ++ here ++ back) (front ++ here' ++ back) := by
  refine ⟨by simp [hlength], by simpa using hne, fun i hi => ?_⟩
  rw [List.append_assoc, List.append_assoc]
  rcases Nat.lt_or_ge i front.length with hlt | hge
  · rw [List.getElem?_append_left hlt, List.getElem?_append_left hlt]
  · rw [List.getElem?_append_right hge, List.getElem?_append_right hge,
      List.getElem?_append_right (by omega), List.getElem?_append_right (by omega), hlength]

/-- If they differ in the first block, its words differ and the rest is the same. -/
theorem first (h : DifferWithin 0 (a :: b :: c :: d :: rest) (a' :: b' :: c' :: d' :: rest')) :
    rest = rest' ∧ word a b c d ≠ word a' b' c' d' := by
  have hrest : rest = rest' := List.ext_getElem? fun i => h.agree (i + 4) (by omega)
  refine ⟨hrest, fun hword => ?_⟩
  obtain ⟨rfl, rfl, rfl, rfl⟩ := word_injective hword
  exact h.ne (by rw [hrest])

/-- If they differ in a later block, the first is the same and the rest differs. -/
theorem later
    (h : DifferWithin (block + 1) (a :: b :: c :: d :: rest) (a' :: b' :: c' :: d' :: rest')) :
    word a b c d = word a' b' c' d' ∧ DifferWithin block rest rest' := by
  have hfirst : ∀ i < 4,
      (a :: b :: c :: d :: rest)[i]? = (a' :: b' :: c' :: d' :: rest')[i]? := fun i hi =>
    h.agree i (by omega)
  obtain rfl : a = a' := Option.some_inj.1 (hfirst 0 (by decide))
  obtain rfl : b = b' := Option.some_inj.1 (hfirst 1 (by decide))
  obtain rfl : c = c' := Option.some_inj.1 (hfirst 2 (by decide))
  obtain rfl : d = d' := Option.some_inj.1 (hfirst 3 (by decide))
  refine ⟨rfl, by simpa using h.length_eq, fun hrest => h.ne (by rw [hrest]), fun i hi => ?_⟩
  exact h.agree (i + 4) (by omega)

/-- They bring a state to different states. -/
theorem absorbAll_ne (h : DifferWithin block x y) (state : UInt32) :
    absorbAll state x ≠ absorbAll state y := by
  have hlength := h.length_eq
  fun_induction absorbAll state x generalizing y block with
  | case1 state a b c d rest ih =>
    match y, hlength with
    | a' :: b' :: c' :: d' :: rest', _ =>
      cases block with
      | zero =>
        -- The blocks part the states, and the rest keeps them apart.
        obtain ⟨rfl, hword⟩ := h.first
        rw [absorbAll_block]
        exact fun hstate => hword (absorb_left_injective _ (absorbAll_injective rest hstate))
      | succ block =>
        obtain ⟨hword, hrest⟩ := h.later
        rw [absorbAll_block, ← hword]
        exact ih hrest hrest.length_eq
  -- In the one to three bytes at the end there is nothing else in which they could differ.
  | case2 state a b c =>
    match y, hlength with
    | [a', b', c'], _ =>
      intro hstate
      obtain ⟨rfl, rfl, rfl, -⟩ :=
        word_injective (scramble_injective ((UInt32.xor_right_inj _).1 hstate))
      exact h.ne rfl
  | case3 state a b =>
    match y, hlength with
    | [a', b'], _ =>
      intro hstate
      obtain ⟨rfl, rfl, -⟩ :=
        word_injective (scramble_injective ((UInt32.xor_right_inj _).1 hstate))
      exact h.ne rfl
  | case4 state a =>
    match y, hlength with
    | [a'], _ =>
      intro hstate
      obtain ⟨rfl, -⟩ := word_injective (scramble_injective ((UInt32.xor_right_inj _).1 hstate))
      exact h.ne rfl
  | case5 state => exact absurd (List.eq_nil_of_length_eq_zero hlength.symm).symm h.ne

/-- They have different hashes. -/
theorem hash_ne (h : DifferWithin block x y) (seed : UInt32) : hash x seed ≠ hash y seed :=
  fun heq => h.absorbAll_ne seed (absorbAll_eq_of_hash_eq h.length_eq heq)

end DifferWithin

/-! ## The hash -/

/-- Under every seed, strings that differ in one block only have different hashes. Every string
makes a bijection of the seeds with the hashes. So strings, and keys as far as they are measured,
never share the default hash if they differ in one block only. -/
theorem hash_separates :
    (∀ (seed : UInt32) (block : ℕ) (x y : Bytes), DifferWithin block x y →
      hash x seed ≠ hash y seed) ∧
    (∀ bytes : Bytes, Function.Bijective (hash bytes)) ∧
    (∀ (block : ℕ) (x y : Bytes), DifferWithin block x y →
      KeyRules.defaultHash x ≠ KeyRules.defaultHash y) ∧
    ∀ (r : KeyRules) (block : ℕ) (x y : Bytes), r.hash = KeyRules.defaultHash →
      DifferWithin block (r.sized x) (r.sized y) → r.hashOf false x ≠ r.hashOf false y := by
  refine ⟨fun seed _ _ _ h => h.hash_ne seed, fun bytes => ?_, fun _ _ _ h => h.hash_ne _, ?_⟩
  -- There are as many seeds as hashes, and no two seeds have the same hash.
  · refine Finite.injective_iff_bijective.1 fun seed seed' heq => ?_
    exact absorbAll_injective bytes (absorbAll_eq_of_hash_eq rfl heq)
  · intro r block x y hhash h
    show r.hash (r.sized x) ≠ r.hash (r.sized y)
    rw [hhash]
    exact h.hash_ne _

/-- Thirteen bytes, changed in the second block and in the byte after the last whole one, and keys
that are cut before a zero byte and then differ in one block. -/
theorem hash_separates_of_thirteen_bytes : ∃ x y z : Bytes, x.length = 13 ∧ hash x 0 = 0xc0363e43 ∧
    DifferWithin 1 x y ∧ hash x 0 ≠ hash y 0 ∧ DifferWithin 3 x z ∧ hash x 0 ≠ hash z 0 ∧
    Function.Bijective (hash x) ∧ KeyRules.defaultHash x ≠ KeyRules.defaultHash y ∧
    DifferWithin 0 (KeyRules.standard.sized [97, 0, 1]) (KeyRules.standard.sized [98, 0]) ∧
    KeyRules.standard.hashOf false [97, 0, 1] ≠ KeyRules.standard.hashOf false [98, 0] := by
  obtain ⟨hblock, hseed, hdefault, hkeys⟩ := hash_separates
  have hsecond : DifferWithin 1
      ([72, 101, 108, 108] ++ [111, 44, 32, 119] ++ [111, 114, 108, 100, 33])
      ([72, 101, 108, 108] ++ [112, 44, 32, 120] ++ [111, 114, 108, 100, 33]) :=
    .of_append rfl rfl (Or.inl rfl) (by decide)
  have hend : DifferWithin 3
      ([72, 101, 108, 108, 111, 44, 32, 119, 111, 114, 108, 100] ++ [33] ++ [])
      ([72, 101, 108, 108, 111, 44, 32, 119, 111, 114, 108, 100] ++ [63] ++ []) :=
    .of_append rfl rfl (Or.inr ⟨by decide, rfl⟩) (by decide)
  have hcut : DifferWithin 0 ([] ++ [97] ++ []) ([] ++ [98] ++ []) :=
    .of_append rfl rfl (Or.inr ⟨by decide, rfl⟩) (by decide)
  exact ⟨_, _, _, rfl, by decide +kernel, hsecond, hblock 0 _ _ _ hsecond, hend,
    hblock 0 _ _ _ hend, hseed _, hdefault _ _ _ hsecond, hcut, hkeys _ _ _ _ rfl hcut⟩

end OpenAddressing.Murmur3
