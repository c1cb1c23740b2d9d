import Mathlib.Data.BitVec

/-!
# 64-bit values and their halves

A 64-bit value that is read and written 32 bits at a time: `lo` and `hi` are the halves of a value,
`setLo` and `setHi` replace one half.
-/

namespace Halves

variable (x : BitVec 64) (v : BitVec 32)

/-- The low half. -/
def lo : BitVec 32 := x.setWidth 32

/-- The high half. -/
def hi : BitVec 32 := (x >>> 32).setWidth 32

/-- The value with `v` in place of its low half. -/
def setLo : BitVec 64 := (x &&& 0xFFFFFFFF00000000#64) ||| v.setWidth 64

/-- The value with `v` in place of its high half. -/
def setHi : BitVec 64 := (x &&& 0x00000000FFFFFFFF#64) ||| v.setWidth 64 <<< 32

/-! ### Bits -/

theorem getLsbD_lo (i : ℕ) : (lo x).getLsbD i = (decide (i < 32) && x.getLsbD i) :=
  BitVec.getLsbD_setWidth ..

theorem getLsbD_hi (i : ℕ) : (hi x).getLsbD i = (decide (i < 32) && x.getLsbD (32 + i)) := by
  rw [hi, BitVec.getLsbD_setWidth, BitVec.getLsbD_ushiftRight]

theorem getLsbD_setLo (i : ℕ) :
    (setLo x v).getLsbD i = if i < 32 then v.getLsbD i else x.getLsbD i := by
  have hmask : 0xFFFFFFFF00000000#64 = ~~~(BitVec.allOnes 32).setWidth 64 := by decide
  rw [setLo, hmask, BitVec.getLsbD_or, BitVec.getLsbD_and, BitVec.getLsbD_not,
    BitVec.getLsbD_setWidth, BitVec.getLsbD_setWidth, BitVec.getLsbD_allOnes]
  split
  next h => simp [h, show i < 64 by omega]
  next h =>
    rw [BitVec.getLsbD_of_ge v i (Nat.le_of_not_lt h), Bool.and_false, Bool.or_false,
      decide_eq_false h, Bool.and_false, Bool.not_false, Bool.and_true, Bool.and_eq_left_iff_imp]
    exact fun hx => decide_eq_true (BitVec.lt_of_getLsbD hx)

theorem getLsbD_setHi (i : ℕ) :
    (setHi x v).getLsbD i = if i < 32 then x.getLsbD i else v.getLsbD (i - 32) := by
  have hmask : 0x00000000FFFFFFFF#64 = (BitVec.allOnes 32).setWidth 64 := by decide
  rw [setHi, hmask, BitVec.getLsbD_or, BitVec.getLsbD_and, BitVec.getLsbD_setWidth,
    BitVec.getLsbD_allOnes, BitVec.getLsbD_shiftLeft, BitVec.getLsbD_setWidth]
  split
  next h => simp [h, show i < 64 by omega]
  next h =>
    rw [decide_eq_false h, Bool.and_false, Bool.and_false, Bool.false_or, Bool.not_false,
      Bool.and_true, ← Bool.and_assoc, Bool.and_eq_right_iff_imp]
    intro hv
    have hlt := BitVec.lt_of_getLsbD hv
    rw [decide_eq_true (show i < 64 by omega), decide_eq_true (show i - 32 < 64 by omega)]
    rfl

/-! ### The halves -/

@[simp] theorem lo_setLo : lo (setLo x v) = v := by
  apply BitVec.eq_of_getLsbD_eq
  intro i hi
  rw [getLsbD_lo, getLsbD_setLo, decide_eq_true hi, if_pos hi, Bool.true_and]

@[simp] theorem hi_setLo : hi (setLo x v) = hi x := by
  apply BitVec.eq_of_getLsbD_eq
  intro i _
  rw [getLsbD_hi, getLsbD_hi, getLsbD_setLo, if_neg (by omega)]

@[simp] theorem lo_setHi : lo (setHi x v) = lo x := by
  apply BitVec.eq_of_getLsbD_eq
  intro i hi
  rw [getLsbD_lo, getLsbD_lo, getLsbD_setHi, if_pos hi]

@[simp] theorem hi_setHi : hi (setHi x v) = v := by
  apply BitVec.eq_of_getLsbD_eq
  intro i hi
  rw [getLsbD_hi, getLsbD_setHi, decide_eq_true hi, if_neg (by omega), Nat.add_sub_cancel_left,
    Bool.true_and]

theorem append_halves : hi x ++ lo x = x := by
  apply BitVec.eq_of_getLsbD_eq
  intro i hi
  rw [BitVec.getLsbD_append, getLsbD_lo, getLsbD_hi]
  by_cases h : i < 32
  · rw [if_pos h, decide_eq_true h, Bool.true_and]
  · rw [if_neg h, decide_eq_true (by omega), Nat.add_sub_cancel' (Nat.le_of_not_lt h),
      Bool.true_and]

end Halves
