import Mathlib.Algebra.Order.Group.Unbundled.Int
import VirtualSoC.Cpu.Execute
import VirtualSoC.Lib.CxxInt

/-!
# The M extension is exact

`Rv32m.Exact` says what the products, quotients and remainders of two words are.  The functions of
`cpu/rv32m.cpp` compute them with the operators of C++, some of which are undefined for some
operands; the `…Checked` functions are the same bodies with these operators, and have a result for
all operands (`arith_exact`).
-/

namespace VirtualSoC

namespace Rv32m

/-! ### The functions over partial operators -/

section

variable (rs1 rs2 : Word)

/-- `mul` with the signed multiplication of C++. -/
def mulChecked : Option Word := do
  let p ← CxxInt.smul (rs1.signExtend 64) (rs2.signExtend 64)
  return p.setWidth 32

/-- `mulh` with the signed multiplication of C++. -/
def mulhChecked : Option Word := do
  let p ← CxxInt.smul (rs1.signExtend 64) (rs2.signExtend 64)
  return (p.sshiftRight 32).setWidth 32

/-- The unsigned operand is converted to the signed type before the multiplication. -/
def mulhsuChecked : Option Word := do
  let p ← CxxInt.smul (rs1.signExtend 64) (rs2.setWidth 64)
  return (p.sshiftRight 32).setWidth 32

/-- `div` with the signed division of C++. -/
def divChecked : Option Word :=
  if rs2 = 0 then some 0xFFFFFFFF
  else if rs1 = int32Min ∧ rs2 = 0xFFFFFFFF then some int32Min
  else CxxInt.sdiv rs1 rs2

/-- `divu` with the division of C++. -/
def divuChecked : Option Word := if rs2 = 0 then some 0xFFFFFFFF else CxxInt.udiv rs1 rs2

/-- `rem` with the signed remainder of C++. -/
def remChecked : Option Word :=
  if rs2 = 0 then some rs1
  else if rs1 = int32Min ∧ rs2 = 0xFFFFFFFF then some 0
  else CxxInt.srem rs1 rs2

/-- `remu` with the remainder of C++. -/
def remuChecked : Option Word := if rs2 = 0 then some rs1 else CxxInt.umod rs1 rs2

/-! ### What the results are -/

/-- No undefined operation is evaluated.  The multiplication of `mulhu` is unsigned and always
defined. -/
structure Defined : Prop where
  mul : mulChecked rs1 rs2 = some (mul rs1 rs2)
  mulh : mulhChecked rs1 rs2 = some (mulh rs1 rs2)
  mulhsu : mulhsuChecked rs1 rs2 = some (mulhsu rs1 rs2)
  div : divChecked rs1 rs2 = some (div rs1 rs2)
  divu : divuChecked rs1 rs2 = some (divu rs1 rs2)
  rem : remChecked rs1 rs2 = some (rem rs1 rs2)
  remu : remuChecked rs1 rs2 = some (remu rs1 rs2)

/-- The operands whose quotient is not in the range of a signed word. -/
def Overflows : Prop := rs1.toInt = -2 ^ 31 ∧ rs2.toInt = -1

/-- The results are those of exact arithmetic. -/
structure Exact : Prop where
  defined : Defined rs1 rs2
  signed : (mulh rs1 rs2 ++ mul rs1 rs2).toInt = rs1.toInt * rs2.toInt
  unsigned : (mulhu rs1 rs2 ++ mul rs1 rs2).toNat = rs1.toNat * rs2.toNat
  mixed : (mulhsu rs1 rs2 ++ mul rs1 rs2).toInt = rs1.toInt * rs2.toNat
  divRem : rs1 = div rs1 rs2 * rs2 + rem rs1 rs2
  divuRemu : rs1 = divu rs1 rs2 * rs2 + remu rs1 rs2
  rem_lt : rs2 ≠ 0 → ¬ Overflows rs1 rs2 → |(rem rs1 rs2).toInt| < |rs2.toInt|
  rem_sign : rs2 ≠ 0 → ¬ Overflows rs1 rs2 → rem rs1 rs2 ≠ 0 →
    ((rem rs1 rs2).toInt < 0 ↔ rs1.toInt < 0)
  remu_lt : rs2 ≠ 0 → (remu rs1 rs2).toNat < rs2.toNat

end

/-! ### Products -/

section

variable (a b : Word)

theorem toInt_bounds : -2 ^ 31 ≤ a.toInt ∧ a.toInt < 2 ^ 31 :=
  ⟨a.le_toInt, a.toInt_lt⟩

theorem toInt_signExtend_word : (a.signExtend 64).toInt = a.toInt :=
  BitVec.toInt_signExtend_of_le (by decide)

theorem toInt_setWidth_word : (a.setWidth 64).toInt = a.toNat := by
  have hlt := a.isLt
  have htoNat : (a.setWidth 64).toNat = a.toNat := by
    rw [BitVec.toNat_setWidth]
    omega
  rw [BitVec.toInt_eq_toNat_of_lt (by rw [htoNat]; omega), htoNat]

theorem smul_signed : CxxInt.smul (a.signExtend 64) (b.signExtend 64) =
      some (a.signExtend 64 * b.signExtend 64) ∧
    (a.signExtend 64 * b.signExtend 64).toInt = a.toInt * b.toInt := by
  have hhi : a.toInt * b.toInt ≤ 2 ^ 62 := BitVec.toInt_mul_toInt_le
  have hlo : -2 ^ 62 ≤ a.toInt * b.toInt := BitVec.le_toInt_mul_toInt
  have h := CxxInt.smul_eq (a := a.signExtend 64) (b := b.signExtend 64)
    (by rw [toInt_signExtend_word, toInt_signExtend_word]; omega)
    (by rw [toInt_signExtend_word, toInt_signExtend_word]; omega)
  rwa [toInt_signExtend_word, toInt_signExtend_word] at h

theorem smul_mixed : CxxInt.smul (a.signExtend 64) (b.setWidth 64) =
      some (a.signExtend 64 * b.setWidth 64) ∧
    (a.signExtend 64 * b.setWidth 64).toInt = a.toInt * b.toNat := by
  obtain ⟨halo, hahi⟩ := toInt_bounds a
  have hb : (b.toNat : ℤ) < 2 ^ 32 := by exact_mod_cast b.isLt
  have hhi : a.toInt * b.toNat ≤ 2 ^ 31 * b.toNat :=
    Int.mul_le_mul_of_nonneg_right hahi.le (Int.natCast_nonneg _)
  have hlo : -2 ^ 31 * b.toNat ≤ a.toInt * b.toNat :=
    Int.mul_le_mul_of_nonneg_right halo (Int.natCast_nonneg _)
  have h := CxxInt.smul_eq (a := a.signExtend 64) (b := b.setWidth 64)
    (by rw [toInt_signExtend_word, toInt_setWidth_word]; omega)
    (by rw [toInt_signExtend_word, toInt_setWidth_word]; omega)
  rwa [toInt_signExtend_word, toInt_setWidth_word] at h

theorem setWidth_signExtend_word : (a.signExtend 64).setWidth 32 = a := by
  refine BitVec.eq_of_getLsbD_eq fun i hi => ?_
  have h64 : i < 64 := by omega
  rw [BitVec.getLsbD_setWidth, BitVec.getLsbD_signExtend, if_pos hi]
  simp [hi, h64]

/-- The low word does not depend on the extensions of the operands. -/
theorem mul_eq : mul a b = a * b := by
  rw [mul, BitVec.setWidth_mul _ _ (by decide), setWidth_signExtend_word, setWidth_signExtend_word]

theorem mulh_append_mul : mulh a b ++ mul a b = a.signExtend 64 * b.signExtend 64 :=
  CxxInt.high_append_low (w := 32) _

theorem mulhsu_append_mul : mulhsu a b ++ mul a b = a.signExtend 64 * b.setWidth 64 := by
  have hlow : mul a b = (a.signExtend 64 * b.setWidth 64).setWidth 32 := by
    rw [mul_eq, BitVec.setWidth_mul _ _ (by decide), setWidth_signExtend_word,
      BitVec.setWidth_setWidth_of_le _ (by decide), BitVec.setWidth_eq]
  rw [hlow]
  exact CxxInt.high_append_low (w := 32) _

theorem mulhu_append_mul : mulhu a b ++ mul a b = a.setWidth 64 * b.setWidth 64 := by
  have hlow : mul a b = (a.setWidth 64 * b.setWidth 64).setWidth 32 := by
    rw [mul_eq, BitVec.setWidth_mul _ _ (by decide), BitVec.setWidth_setWidth_of_le _ (by decide),
      BitVec.setWidth_setWidth_of_le _ (by decide), BitVec.setWidth_eq, BitVec.setWidth_eq]
  rw [hlow]
  exact CxxInt.high_append_low_unsigned (w := 32) _

theorem toNat_mul_setWidth : (a.setWidth 64 * b.setWidth 64).toNat = a.toNat * b.toNat := by
  have hlt : a.toNat * b.toNat < 2 ^ 32 * 2 ^ 32 := Nat.mul_lt_mul'' a.isLt b.isLt
  have ha := a.isLt
  have hb := b.isLt
  rw [BitVec.toNat_mul, BitVec.toNat_setWidth, BitVec.toNat_setWidth,
    Nat.mod_eq_of_lt (a := a.toNat) (by omega), Nat.mod_eq_of_lt (a := b.toNat) (by omega),
    Nat.mod_eq_of_lt (by omega)]

end

/-! ### Quotients and remainders -/

section

variable {a b : Word}

theorem overflows_iff : Overflows a b ↔ a = int32Min ∧ b = 0xFFFFFFFF := by
  have hmin : int32Min.toInt = -2 ^ 31 := by decide
  have hneg : (0xFFFFFFFF : Word).toInt = -1 := by decide
  rw [Overflows, ← hmin, ← hneg, BitVec.toInt_inj, BitVec.toInt_inj]

variable (hb : b ≠ 0) (hov : ¬ Overflows a b)

include hb hov

theorem div_eq : div a b = a.sdiv b := by
  rw [div, if_neg hb, if_neg (mt overflows_iff.2 hov)]

theorem rem_eq : rem a b = a.srem b := by
  rw [rem, if_neg hb, if_neg (mt overflows_iff.2 hov)]

theorem toInt_rem : (rem a b).toInt = a.toInt.tmod b.toInt := by
  rw [rem_eq hb hov, BitVec.toInt_srem]

theorem sdiv_defined : CxxInt.sdiv a b = some (a.sdiv b) :=
  CxxInt.sdiv_eq (by decide) hb (mt overflows_iff.2 hov)

theorem srem_defined : CxxInt.srem a b = some (a.srem b) :=
  CxxInt.srem_eq (by decide) hb (mt overflows_iff.2 hov)

end

variable (a b : Word)

theorem div_mul_add_rem : div a b * b + rem a b = a := by
  by_cases hb : b = 0
  · rw [rem, if_pos hb, hb]
    simp
  · by_cases hov : Overflows a b
    · obtain ⟨rfl, rfl⟩ := overflows_iff.1 hov
      decide
    · rw [div_eq hb hov, rem_eq hb hov, CxxInt.sdiv_mul_add_srem]

theorem divu_mul_add_remu : divu a b * b + remu a b = a := by
  by_cases hb : b = 0
  · rw [remu, if_pos hb, hb]
    simp
  · rw [divu, remu, if_neg hb, if_neg hb, CxxInt.udiv_mul_add_umod]

theorem defined : Defined a b where
  mul := by
    rw [mulChecked, (smul_signed a b).1]
    rfl
  mulh := by
    rw [mulhChecked, (smul_signed a b).1]
    rfl
  mulhsu := by
    rw [mulhsuChecked, (smul_mixed a b).1]
    rfl
  div := by
    unfold divChecked div
    split
    · rfl
    next hb =>
      split
      · rfl
      next hov => exact sdiv_defined hb (mt overflows_iff.1 hov)
  divu := by
    unfold divuChecked divu
    split
    · rfl
    next hb => exact if_neg hb
  rem := by
    unfold remChecked rem
    split
    · rfl
    next hb =>
      split
      · rfl
      next hov => exact srem_defined hb (mt overflows_iff.1 hov)
  remu := by
    unfold remuChecked remu
    split
    · rfl
    next hb => exact if_neg hb

/-- **The arithmetic of the M extension is exact.** -/
theorem arith_exact : Exact a b where
  defined := defined a b
  signed := by rw [mulh_append_mul, (smul_signed a b).2]
  unsigned := by rw [mulhu_append_mul, toNat_mul_setWidth]
  mixed := by rw [mulhsu_append_mul, (smul_mixed a b).2]
  divRem := (div_mul_add_rem a b).symm
  divuRemu := (divu_mul_add_remu a b).symm
  rem_lt hb hov := by
    have hpos : 0 < b.toInt.natAbs :=
      Int.natAbs_pos.2 fun h => hb (BitVec.eq_of_toInt_eq h)
    rw [toInt_rem hb hov, Int.abs_eq_natAbs, Int.abs_eq_natAbs, Int.natAbs_tmod]
    exact_mod_cast Nat.mod_lt _ hpos
  rem_sign hb hov hne := by
    have hzero : (rem a b).toInt ≠ 0 := fun h => hne (BitVec.eq_of_toInt_eq h)
    have hsign := Int.sign_tmod a.toInt b.toInt
    rw [← toInt_rem hb hov] at hsign
    split at hsign
    · exact absurd (Int.sign_eq_zero_iff_zero.1 hsign) hzero
    · rw [← Int.sign_eq_neg_one_iff_neg, hsign, Int.sign_eq_neg_one_iff_neg]
  remu_lt hb := by
    have hpos : 0 < b.toNat := Nat.pos_of_ne_zero fun h => hb (BitVec.eq_of_toNat_eq h)
    rw [remu, if_neg hb, BitVec.toNat_umod]
    exact Nat.mod_lt _ hpos

end Rv32m

end VirtualSoC
