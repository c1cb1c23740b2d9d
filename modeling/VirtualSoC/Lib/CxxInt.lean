import Mathlib.Algebra.Group.Int.Defs
import Mathlib.Algebra.Group.Nat.Defs
import Mathlib.Data.Nat.Notation

/-!
# Built-in integer arithmetic of C++

The operators whose behaviour C++17 leaves undefined for some operands: signed addition, subtraction
and multiplication that overflow, shifts by the width or more, signed left shifts of a negative
value or out of the range of the unsigned type, and division and remainder by zero or, for signed
operands, with a quotient that overflows.  An undefined operation has no result.

## Main results

* `smul_eq`, `sshl_eq`, `sdiv_eq`, `srem_eq` : the results inside the range;
* `sadd_eq_some_iff`, `ssub_eq_some_iff` : where sums and differences are defined;
* `high_append_low` : a product of double width from its two words;
* `sdiv_mul_add_srem`, `udiv_mul_add_umod` : division with remainder.
-/

namespace CxxInt

variable {w : ℕ} (a b : BitVec w)

/-- `a + b` of a signed type. -/
def sadd : Option (BitVec w) := if a.saddOverflow b then none else some (a + b)

/-- `a - b` of a signed type. -/
def ssub : Option (BitVec w) := if a.ssubOverflow b then none else some (a - b)

/-- `a << n` of a signed type. -/
def sshl (n : ℕ) : Option (BitVec w) :=
  if a.toInt < 0 ∨ w ≤ n ∨ 2 ^ w ≤ a.toNat * 2 ^ n then none else some (a <<< n)

/-- `a >> n` of a signed type: defined also for negative values. -/
def sshr (n : ℕ) : Option (BitVec w) := if w ≤ n then none else some (a.sshiftRight n)

/-- `a * b` of a signed type. -/
def smul : Option (BitVec w) := if a.smulOverflow b then none else some (a * b)

/-- `a / b` of a signed type. -/
def sdiv : Option (BitVec w) := if b = 0 ∨ a.sdivOverflow b then none else some (a.sdiv b)

/-- `a % b` of a signed type: undefined where `a / b` is. -/
def srem : Option (BitVec w) := if b = 0 ∨ a.sdivOverflow b then none else some (a.srem b)

/-- `a / b` of an unsigned type. -/
def udiv : Option (BitVec w) := if b = 0 then none else some (a / b)

/-- `a % b` of an unsigned type. -/
def umod : Option (BitVec w) := if b = 0 then none else some (a % b)

/-- The range of a signed type. -/
def InRange (w : ℕ) (x : ℤ) : Prop := -2 ^ (w - 1) ≤ x ∧ x < 2 ^ (w - 1)

variable {a b}

/-! ### Where the operators are defined -/

theorem ite_none_eq_some {α : Type} {c : Prop} [Decidable c] {x : α} :
    (if c then none else some x) = some x ↔ ¬ c := by
  by_cases h : c
  · simp [h]
  · simp [h]

theorem sadd_eq_some_iff : sadd a b = some (a + b) ↔ InRange w (a.toInt + b.toInt) := by
  rw [sadd, ite_none_eq_some, InRange]
  simp only [BitVec.saddOverflow, ge_iff_le, Bool.or_eq_true, decide_eq_true_eq]
  omega

theorem ssub_eq_some_iff : ssub a b = some (a - b) ↔ InRange w (a.toInt - b.toInt) := by
  rw [ssub, ite_none_eq_some, InRange]
  simp only [BitVec.ssubOverflow, ge_iff_le, Bool.or_eq_true, decide_eq_true_eq]
  omega

theorem map_sadd_eq_some_iff {α : Type*} (f : BitVec w → α) :
    (sadd a b).map f = some (f (a + b)) ↔ InRange w (a.toInt + b.toInt) := by
  rw [← sadd_eq_some_iff, sadd]
  split
  · simp
  · simp

theorem map_ssub_eq_some_iff {α : Type*} (f : BitVec w → α) :
    (ssub a b).map f = some (f (a - b)) ↔ InRange w (a.toInt - b.toInt) := by
  rw [← ssub_eq_some_iff, ssub]
  split
  · simp
  · simp

/-- A left shift of a value that is not negative and has room. -/
theorem sshl_eq {n : ℕ} (ha : 2 * a.toNat < 2 ^ w) (hn : n < w) (h : a.toNat * 2 ^ n < 2 ^ w) :
    sshl a n = some (a <<< n) := by
  refine if_neg ?_
  rintro (hneg | hle | hbig)
  · exact Nat.not_le.2 ha (BitVec.toInt_neg_iff.1 hneg)
  · omega
  · omega

theorem sshl_and {m : BitVec w} {n : ℕ} (hm : 2 * m.toNat < 2 ^ w) (hn : n < w)
    (h : m.toNat * 2 ^ n < 2 ^ w) : sshl (a &&& m) n = some ((a &&& m) <<< n) := by
  have hle : (a &&& m).toNat ≤ m.toNat := by
    rw [BitVec.toNat_and]
    exact Nat.and_le_right
  exact sshl_eq (by omega) hn (Nat.lt_of_le_of_lt (Nat.mul_le_mul_right _ hle) h)

theorem sshl_of_neg (h : a.toInt < 0) (n : ℕ) : sshl a n = none := if_pos (Or.inl h)

theorem sshr_eq {n : ℕ} (h : n < w) : sshr a n = some (a.sshiftRight n) := if_neg (Nat.not_le.2 h)

theorem smul_eq (hlo : -2 ^ (w - 1) ≤ a.toInt * b.toInt) (hhi : a.toInt * b.toInt < 2 ^ (w - 1)) :
    smul a b = some (a * b) ∧ (a * b).toInt = a.toInt * b.toInt := by
  have hno : ¬ a.smulOverflow b := by
    simp only [BitVec.smulOverflow, ge_iff_le, Bool.or_eq_true, decide_eq_true_eq]
    omega
  exact ⟨if_neg hno, BitVec.toInt_mul_of_not_smulOverflow hno⟩

/-- The quotient overflows for one pair of operands only. -/
theorem sdivOverflow_iff (hw : 0 < w) :
    a.sdivOverflow b ↔ a = BitVec.intMin w ∧ b = BitVec.allOnes w := by
  simp [BitVec.sdivOverflow_eq, hw]

theorem sdiv_eq (hw : 0 < w) (hb : b ≠ 0) (h : ¬ (a = BitVec.intMin w ∧ b = BitVec.allOnes w)) :
    sdiv a b = some (a.sdiv b) :=
  if_neg (not_or.2 ⟨hb, mt (sdivOverflow_iff hw).1 h⟩)

theorem srem_eq (hw : 0 < w) (hb : b ≠ 0) (h : ¬ (a = BitVec.intMin w ∧ b = BitVec.allOnes w)) :
    srem a b = some (a.srem b) :=
  if_neg (not_or.2 ⟨hb, mt (sdivOverflow_iff hw).1 h⟩)

/-! ### Wide products -/

theorem high_append_low (p : BitVec (w + w)) :
    (p.sshiftRight w).setWidth w ++ p.setWidth w = p := by
  refine BitVec.eq_of_getLsbD_eq fun i hi => ?_
  rw [BitVec.getLsbD_append]
  by_cases hlow : i < w
  · simp [hlow]
  · have hshift : w + (i - w) = i := by omega
    have hword : i - w < w := by omega
    simp [hlow, hword, BitVec.getLsbD_sshiftRight, hshift, hi]
    omega

theorem high_append_low_unsigned (p : BitVec (w + w)) :
    (p >>> w).setWidth w ++ p.setWidth w = p := by
  refine BitVec.eq_of_getLsbD_eq fun i hi => ?_
  rw [BitVec.getLsbD_append]
  by_cases hlow : i < w
  · simp [hlow]
  · have hshift : w + (i - w) = i := by omega
    have hword : i - w < w := by omega
    simp [hlow, hword, hshift]

/-! ### Division with remainder -/

theorem sdiv_mul_add_srem (a b : BitVec w) : a.sdiv b * b + a.srem b = a := by
  have hdiv : a.sdiv b = BitVec.ofInt w (a.toInt.tdiv b.toInt) := by
    refine BitVec.eq_of_toInt_eq ?_
    rw [BitVec.toInt_sdiv, BitVec.toInt_ofInt]
  have hrem : a.srem b = BitVec.ofInt w (a.toInt.tmod b.toInt) := by
    rw [← BitVec.toInt_srem, BitVec.ofInt_toInt]
  calc a.sdiv b * b + a.srem b
      = BitVec.ofInt w (a.toInt.tdiv b.toInt) * BitVec.ofInt w b.toInt +
          BitVec.ofInt w (a.toInt.tmod b.toInt) := by rw [hdiv, hrem, BitVec.ofInt_toInt]
    _ = BitVec.ofInt w (a.toInt.tdiv b.toInt * b.toInt + a.toInt.tmod b.toInt) := by
      rw [BitVec.ofInt_add, BitVec.ofInt_mul]
    _ = a := by rw [Int.tdiv_mul_add_tmod, BitVec.ofInt_toInt]

theorem udiv_mul_add_umod (a b : BitVec w) : a / b * b + a % b = a := by
  refine BitVec.eq_of_toNat_eq ?_
  simp [Nat.div_add_mod']

end CxxInt
