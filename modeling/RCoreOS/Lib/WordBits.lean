import Mathlib

/-!
# Setting and clearing single bits of a machine word

The three facts that a bitmap allocator needs of words of any width: the
number of trailing ones is the index of the lowest zero bit, or-ing with a
shifted one sets exactly one bit, and subtracting a shifted one clears exactly
that bit when it was set.
-/

namespace RCoreOS.Lib.WordBits

variable {width : Nat}

/-- The number of ones below the lowest zero bit. -/
def trailingOnes (word : BitVec width) : Nat := (~~~word).ctz.toNat

theorem not_ne_zero
    {word : BitVec width} (notFull : word ≠ BitVec.allOnes width) :
    ~~~word ≠ BitVec.ofNat width 0 := by
  intro zero
  apply notFull
  rw [← BitVec.not_not (b := word), zero, BitVec.not_zero]

theorem trailingOnes_lt
    {word : BitVec width} (notFull : word ≠ BitVec.allOnes width) :
    trailingOnes word < width := by
  by_contra outside
  have one := BitVec.getLsbD_true_ctz_of_ne_zero (not_ne_zero notFull)
  rw [trailingOnes, Nat.not_lt] at outside
  rw [BitVec.getLsbD_of_ge _ _ outside] at one
  cases one

/-- The bit at `trailingOnes` is the zero. -/
theorem getLsbD_trailingOnes
    {word : BitVec width} (notFull : word ≠ BitVec.allOnes width) :
    word.getLsbD (trailingOnes word) = false := by
  have one := BitVec.getLsbD_true_ctz_of_ne_zero (not_ne_zero notFull)
  have inside := trailingOnes_lt notFull
  simp only [trailingOnes] at inside ⊢
  rw [BitVec.getLsbD_not] at one
  simpa [inside] using one

variable {index : Nat}

/-- All bits below `trailingOnes` are ones. -/
theorem getLsbD_below_trailingOnes {word : BitVec width}
    (notFull : word ≠ BitVec.allOnes width)
    (below : index < trailingOnes word) :
    word.getLsbD index = true := by
  have zero : (~~~word).getLsbD index = false :=
    BitVec.getLsbD_false_of_lt_ctz below
  have inside : index < width := below.trans (trailingOnes_lt notFull)
  rw [BitVec.getLsbD_not] at zero
  simpa [inside] using zero

/-- `1 << index` -/
def oneAt (index : Nat) : BitVec width := BitVec.ofNat width 1 <<< index

theorem getLsbD_oneAt (position : Nat) (inside : index < width) :
    (oneAt index : BitVec width).getLsbD position =
      decide (position = index) := by
  rw [oneAt, BitVec.getLsbD_shiftLeft, BitVec.getLsbD_one]
  rw [Bool.eq_iff_iff]
  simp only [Bool.and_eq_true, Bool.not_eq_true', decide_eq_true_eq,
    decide_eq_false_iff_not]
  omega

/-- Setting a bit leaves the others alone. -/
theorem getLsbD_or_oneAt (word : BitVec width) (inside : index < width)
    (position : Nat) :
    (word ||| oneAt index).getLsbD position =
      (word.getLsbD position || decide (position = index)) := by
  rw [BitVec.getLsbD_or, getLsbD_oneAt position inside]

/-- The test `word & (1 << index) > 0` reads the bit. -/
theorem and_oneAt_pos (word : BitVec width) (inside : index < width) :
    BitVec.ofNat width 0 < word &&& oneAt index ↔ word.getLsbD index = true := by
  have bits :
      ∀ position,
        (word &&& oneAt index).getLsbD position =
          (word.getLsbD position && decide (position = index)) := by
    intro position
    rw [BitVec.getLsbD_and, getLsbD_oneAt position inside]
  constructor
  · intro positive
    by_contra clear
    have zero : word &&& oneAt index = BitVec.ofNat width 0 := by
      apply BitVec.eq_of_getLsbD_eq
      intro position _
      rw [bits]
      by_cases equal : position = index
      · subst equal
        simpa using clear
      · simp [equal]
    rw [zero] at positive
    exact absurd positive (by simp)
  · intro set
    have one : (word &&& oneAt index).getLsbD index = true := by
      rw [bits]
      simp [set]
    rw [BitVec.lt_def, BitVec.toNat_zero]
    apply Nat.pos_of_ne_zero
    intro zero
    have none : word &&& oneAt index = BitVec.ofNat width 0 := by
      apply BitVec.eq_of_toNat_eq
      simpa using zero
    rw [none] at one
    simp at one

/-- Subtracting `1 << index` clears that bit when it was set. -/
theorem getLsbD_sub_oneAt {word : BitVec width} (inside : index < width)
    (set : word.getLsbD index = true) (position : Nat) :
    (word - oneAt index).getLsbD position =
      (word.getLsbD position && !decide (position = index)) := by
  have disjoint : (word &&& ~~~(oneAt index)) &&& oneAt index = BitVec.ofNat width 0 := by
    rw [BitVec.and_assoc]
    simp [BitVec.and_comm]
  have rebuilt : (word &&& ~~~(oneAt index)) + oneAt index = word := by
    rw [BitVec.add_eq_or_of_and_eq_zero _ _ disjoint]
    apply BitVec.eq_of_getLsbD_eq
    intro other otherInside
    rw [BitVec.getLsbD_or, BitVec.getLsbD_and, BitVec.getLsbD_not,
      getLsbD_oneAt other inside]
    by_cases equal : other = index
    · subst equal
      simp [set]
    · simp [equal, otherInside]
  have difference : word - oneAt index = word &&& ~~~(oneAt index) := by
    conv_lhs => rw [← rebuilt]
    rw [BitVec.add_sub_cancel]
  rw [difference, BitVec.getLsbD_and, BitVec.getLsbD_not,
    getLsbD_oneAt position inside]
  by_cases within : position < width
  · simp [within]
  · simp [BitVec.getLsbD_of_ge word position (Nat.not_lt.mp within)]

end RCoreOS.Lib.WordBits
