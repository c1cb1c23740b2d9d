import VirtualSoC.Cpu.ExecuteSpec
import VirtualSoC.Isa.Compressed

/-!
# The decoder on compressed parcels

`expandCompressed` rewrites a parcel to the word of the instruction that RV32C says it abbreviates
(`expandCompressed_of_some`), and to an illegal word when RV32C says it abbreviates none
(`expandCompressed_of_none`).  The fields of the parcel are identified first, then each layout of
the 32-bit word.
-/

namespace VirtualSoC

open Isa

/-! ### Fields of the parcel -/

section Fields

variable (p : BitVec 16)

theorem parcel_field {s n : ℕ} (h : s + n ≤ 16) :
    (p.setWidth 32 >>> s) &&& (BitVec.allOnes n).setWidth 32 = (p.extractLsb' s n).setWidth 32 := by
  refine BitVec.eq_of_getLsbD_eq fun i hi => ?_
  simp only [BitVec.getLsbD_and, BitVec.getLsbD_ushiftRight, BitVec.getLsbD_setWidth,
    BitVec.getLsbD_allOnes, BitVec.getLsbD_extractLsb', hi, decide_true, Bool.true_and]
  by_cases hn : i < n
  · simp [hn, show s + i < 32 by omega]
  · simp [hn]

theorem parcel_op : p.setWidth 32 &&& 0x3#32 = (p.extractLsb' 0 2).setWidth 32 := by
  simpa using parcel_field p (s := 0) (n := 2) (by decide)

theorem parcel_funct3 : (p.setWidth 32 >>> 13) &&& 0x7#32 = (p.extractLsb' 13 3).setWidth 32 :=
  parcel_field p (n := 3) (by decide)

theorem parcel_rdRs1 : (p.setWidth 32 >>> 7) &&& 0x1F#32 = (Rvc.rdRs1 p).setWidth 32 :=
  parcel_field p (n := 5) (by decide)

theorem parcel_rs2 : (p.setWidth 32 >>> 2) &&& 0x1F#32 = (Rvc.rs2 p).setWidth 32 :=
  parcel_field p (n := 5) (by decide)

theorem creg_setWidth : ∀ r : BitVec 3, creg (r.setWidth 32) = (Rvc.creg r).setWidth 32 := by
  decide

theorem parcel_rs1' : creg ((p.setWidth 32 >>> 7) &&& 0x7#32) = (Rvc.rs1' p).setWidth 32 := by
  rw [← creg_setWidth]
  exact congrArg creg (parcel_field p (n := 3) (by decide))

theorem parcel_rs2' : creg ((p.setWidth 32 >>> 2) &&& 0x7#32) = (Rvc.rs2' p).setWidth 32 := by
  rw [← creg_setWidth]
  exact congrArg creg (parcel_field p (n := 3) (by decide))

/-! ### Immediates of the parcel -/

/-- The hand-written sign extension of an `(n+1)`-bit value. -/
theorem orSign_setWidth {n : ℕ} (x : BitVec (n + 1)) (hn : n < 31) :
    orSign (x.setWidth 32) (BitVec.twoPow 32 n) ((BitVec.allOnes (n + 1)).setWidth 32) =
      x.signExtend 32 := by
  have hbit : (x.setWidth 32).getLsbD n = x.msb := by
    rw [BitVec.getLsbD_setWidth, BitVec.msb_eq_getLsbD_last]
    simp [show n < 32 by omega]
  have htop : BitVec.twoPow 32 n ≠ 0 := by
    intro h
    simpa [show n < 32 by omega] using congrArg (fun y => y.getLsbD n) h
  rw [orSign, BitVec.and_twoPow, hbit]
  refine BitVec.eq_of_getLsbD_eq fun i hi => ?_
  rw [BitVec.getLsbD_signExtend]
  cases hm : x.msb with
  | true =>
    rw [if_pos rfl, if_pos htop]
    by_cases hin : i < n + 1 <;> simp [hin, hi]
  | false =>
    rw [if_neg Bool.false_ne_true, if_neg (by simp)]
    by_cases hin : i < n + 1
    · simp [hin, hi]
    · simp [hin, BitVec.getLsbD_of_ge x i (by omega)]

theorem parcel_ciImm : VirtualSoC.ciImm (p.setWidth 32) = (Rvc.ciImm p).signExtend 32 := by
  have hv : ((p.setWidth 32 >>> 7) &&& 0x20) ||| ((p.setWidth 32 >>> 2) &&& 0x1F) =
      (Rvc.ciImm p).setWidth 32 := by
    refine BitVec.eq_of_getLsbD_eq fun i hi => ?_
    simp only [Rvc.ciImm, BitVec.getLsbD_setWidth, BitVec.getLsbD_append]
    interval_cases i <;> simp
  rw [VirtualSoC.ciImm, hv]
  exact orSign_setWidth (Rvc.ciImm p) (by decide)

theorem parcel_cjOff :
    cjOffset (p.setWidth 32) = (Rvc.cjOff p ++ 0#1).signExtend 32 := by
  rw [cjOffset]
  refine Eq.trans ?_ (orSign_setWidth (Rvc.cjOff p ++ 0#1) (by decide))
  congr 1
  refine BitVec.eq_of_getLsbD_eq fun i hi => ?_
  simp only [Rvc.cjOff, BitVec.getLsbD_setWidth, BitVec.getLsbD_append]
  interval_cases i <;> simp

theorem parcel_cbOff :
    cbOffset (p.setWidth 32) = (Rvc.cbOff p ++ 0#1).signExtend 32 := by
  rw [cbOffset]
  refine Eq.trans ?_ (orSign_setWidth (Rvc.cbOff p ++ 0#1) (by decide))
  congr 1
  refine BitVec.eq_of_getLsbD_eq fun i hi => ?_
  simp only [Rvc.cbOff, BitVec.getLsbD_setWidth, BitVec.getLsbD_append]
  interval_cases i <;> simp

theorem parcel_addi16spImm :
    orSign
      (((p.setWidth 32 >>> 3) &&& 0x200#32) ||| ((p.setWidth 32 >>> 2) &&& 0x10#32) |||
        ((p.setWidth 32 <<< 1) &&& 0x40#32) ||| ((p.setWidth 32 <<< 4) &&& 0x180#32) |||
        ((p.setWidth 32 <<< 3) &&& 0x20#32))
      0x200#32 0x3FF#32 = (Rvc.addi16spImm p).signExtend 32 := by
  refine Eq.trans ?_ (orSign_setWidth (Rvc.addi16spImm p) (by decide))
  congr 1
  refine BitVec.eq_of_getLsbD_eq fun i hi => ?_
  simp only [Rvc.addi16spImm, BitVec.getLsbD_setWidth, BitVec.getLsbD_append]
  interval_cases i <;> simp

theorem parcel_addi4spnImm :
    ((p.setWidth 32 >>> 1) &&& 0x3C0#32) ||| ((p.setWidth 32 >>> 7) &&& 0x30#32) |||
      ((p.setWidth 32 >>> 2) &&& 0x8#32) ||| ((p.setWidth 32 >>> 4) &&& 0x4#32) =
      (Rvc.addi4spnImm p).setWidth 32 := by
  refine BitVec.eq_of_getLsbD_eq fun i hi => ?_
  simp only [Rvc.addi4spnImm, BitVec.getLsbD_setWidth, BitVec.getLsbD_append]
  interval_cases i <;> simp

theorem parcel_lwImm : clOffset (p.setWidth 32) = (Rvc.lwImm p).setWidth 32 := by
  refine BitVec.eq_of_getLsbD_eq fun i hi => ?_
  simp only [clOffset, Rvc.lwImm, BitVec.getLsbD_setWidth, BitVec.getLsbD_append]
  interval_cases i <;> simp

theorem parcel_lwspImm :
    ((p.setWidth 32 >>> 7) &&& 0x20#32) ||| ((p.setWidth 32 >>> 2) &&& 0x1C#32) |||
      ((p.setWidth 32 <<< 4) &&& 0xC0#32) = (Rvc.lwspImm p).setWidth 32 := by
  refine BitVec.eq_of_getLsbD_eq fun i hi => ?_
  simp only [Rvc.lwspImm, BitVec.getLsbD_setWidth, BitVec.getLsbD_append]
  interval_cases i <;> simp

theorem parcel_swspImm :
    ((p.setWidth 32 >>> 7) &&& 0x3C#32) ||| ((p.setWidth 32 >>> 1) &&& 0xC0#32) =
      (Rvc.swspImm p).setWidth 32 := by
  refine BitVec.eq_of_getLsbD_eq fun i hi => ?_
  simp only [Rvc.swspImm, BitVec.getLsbD_setWidth, BitVec.getLsbD_append]
  interval_cases i <;> simp

theorem parcel_shamt :
    ciShamt (p.setWidth 32) = (Rvc.bits p 12 1 ++ Rvc.bits p 2 5).setWidth 32 := by
  refine BitVec.eq_of_getLsbD_eq fun i hi => ?_
  simp only [ciShamt, BitVec.getLsbD_setWidth, BitVec.getLsbD_append]
  interval_cases i <;> simp

end Fields

/-! ### Layouts of the 32-bit word -/

section Layouts

variable (x : Word) (f7 op : BitVec 7) (s2 s1 d : Reg) (f3 : BitVec 3)

theorem layout_i :
    x <<< 20 ||| s1.setWidth 32 <<< 15 ||| f3.setWidth 32 <<< 12 ||| d.setWidth 32 <<< 7 |||
      op.setWidth 32 = iType (x.setWidth 12) s1 f3 d op := by
  refine BitVec.eq_of_getLsbD_eq fun i hi => ?_
  unfold iType word
  interval_cases i <;> simp

theorem layout_s :
    ((x >>> 5) &&& 0x7F#32) <<< 25 ||| s2.setWidth 32 <<< 20 ||| s1.setWidth 32 <<< 15 |||
      f3.setWidth 32 <<< 12 ||| (x &&& 0x1F#32) <<< 7 ||| op.setWidth 32 =
      sType (x.setWidth 12) s2 s1 f3 op := by
  refine BitVec.eq_of_getLsbD_eq fun i hi => ?_
  unfold sType word
  interval_cases i <;> simp

theorem layout_u :
    x <<< 12 ||| d.setWidth 32 <<< 7 ||| op.setWidth 32 = uType (x.setWidth 20) d op := by
  refine BitVec.eq_of_getLsbD_eq fun i hi => ?_
  unfold uType word
  interval_cases i <;> simp

theorem layout_j :
    cjImm20 x ||| d.setWidth 32 <<< 7 ||| op.setWidth 32 = jType (x.extractLsb' 1 20) d op := by
  refine BitVec.eq_of_getLsbD_eq fun i hi => ?_
  unfold cjImm20 jType uType word
  interval_cases i <;> simp [BitVec.getElem_sshiftRight]

theorem layout_b :
    ((((x.sshiftRight 12) &&& 0x1#32) <<< 6) ||| ((x.sshiftRight 5) &&& 0x3F#32)) <<< 25 |||
      s2.setWidth 32 <<< 20 ||| s1.setWidth 32 <<< 15 ||| f3.setWidth 32 <<< 12 |||
      ((((x.sshiftRight 1) &&& 0xF#32) <<< 1) ||| ((x.sshiftRight 11) &&& 0x1#32)) <<< 7 |||
      op.setWidth 32 = bType (x.extractLsb' 1 12) s2 s1 f3 op := by
  refine BitVec.eq_of_getLsbD_eq fun i hi => ?_
  unfold bType word
  interval_cases i <;> simp [BitVec.getElem_sshiftRight]

theorem layout_i_zero :
    s1.setWidth 32 <<< 15 ||| f3.setWidth 32 <<< 12 ||| d.setWidth 32 <<< 7 ||| op.setWidth 32 =
      iType 0 s1 f3 d op := by
  have h := layout_i 0#32 op s1 d f3
  rwa [BitVec.zero_shiftLeft, BitVec.zero_or] at h

/-- The layout of a shift by an amount of six bits, whose top bit lands in `funct7`. -/
theorem layout_shift (b : BitVec 1) :
    f7.setWidth 32 <<< 25 ||| (b ++ s2).setWidth 32 <<< 20 ||| s1.setWidth 32 <<< 15 |||
      f3.setWidth 32 <<< 12 ||| d.setWidth 32 <<< 7 ||| op.setWidth 32 =
      word (f7 ||| b.setWidth 7) s2 s1 f3 d op := by
  refine BitVec.eq_of_getLsbD_eq fun i hi => ?_
  simp only [word, BitVec.getLsbD_or, BitVec.getLsbD_shiftLeft, BitVec.getLsbD_setWidth,
    BitVec.getLsbD_append]
  interval_cases i <;> simp

end Layouts

/-! ### Quadrants -/

/-- `w` is the word of the instruction, or illegal when there is none. -/
def Expands (w : Word) : Option Instr → Prop
  | some i => w = i.encode
  | none => (decode32 w).type = .illegal

theorem expands_zero : Expands 0 none := by
  unfold Expands
  decide

theorem setWidth_eq_zero {n : ℕ} (hn : n ≤ 32) {x : BitVec n} : x.setWidth 32 = 0#32 ↔ x = 0#n := by
  rw [show 0#32 = (0#n).setWidth 32 by simp]
  exact Bits.setWidth_inj hn

/-! Narrowing the extended immediates of a parcel to the immediate field. -/

theorem signExtend_narrow {n k : ℕ} (hk : k ≤ 32) (x : BitVec n) :
    (x.signExtend 32).setWidth k = x.signExtend k := by
  refine BitVec.eq_of_getLsbD_eq fun i hi => ?_
  simp only [BitVec.getLsbD_setWidth, BitVec.getLsbD_signExtend, hi, show i < 32 by omega,
    decide_true, Bool.true_and]

theorem signExtend_append_narrow {n k : ℕ} (hk : k < 32) (x : BitVec n) :
    ((x ++ 0#1).signExtend 32).extractLsb' 1 k = x.signExtend k := by
  refine BitVec.eq_of_getLsbD_eq fun i hi => ?_
  have hmsb : (x ++ 0#1).msb = x.msb := by
    rw [BitVec.msb_append]
    cases n <;> simp [BitVec.of_length_zero]
  simp only [BitVec.getLsbD_extractLsb', BitVec.getLsbD_signExtend, BitVec.getLsbD_append, hi, hmsb,
    show 1 + i < 32 by omega, show ¬ 1 + i < 1 by omega, Nat.add_sub_cancel_left]
  by_cases hn : i < n
  · simp [hn, show 1 + i < n + 1 by omega]
  · simp [hn, show ¬ 1 + i < n + 1 by omega]

theorem signExtend_eq_zero {n : ℕ} (hn : n ≤ 32) {x : BitVec n} :
    x.signExtend 32 = 0#32 ↔ x = 0#n := by
  refine ⟨fun h => ?_, fun h => ?_⟩
  swap
  · refine BitVec.eq_of_getLsbD_eq fun i hi => ?_
    simp [h, BitVec.getLsbD_signExtend]
  have hx := congrArg (BitVec.setWidth n) h
  rwa [signExtend_narrow hn, BitVec.signExtend_eq, BitVec.setWidth_zero] at hx

section Quadrants

variable (p : BitVec 16)

theorem expands_q0 : Expands (expandQ0 (p.setWidth 32)) (Rvc.expand0 p) := by
  simp only [expandQ0, Rvc.expand0, BitVec.ofNat_eq_ofNat, BitVec.natCast_eq_ofNat, parcel_funct3,
    parcel_addi4spnImm, parcel_lwImm, parcel_rs1', parcel_rs2']
  rcases Bits.cases_three (Rvc.bits p 13 3) with h | h | h | h | h | h | h | h <;>
    simp only [h, BitVec.reduceSetWidth, BitVec.reduceEq, ↓reduceIte, BitVec.ofNat_eq_ofNat]
  · by_cases h0 : Rvc.addi4spnImm p = 0#10
    · rw [if_pos h0, if_pos ((setWidth_eq_zero (by decide)).2 h0)]
      exact expands_zero
    · rw [if_neg h0, if_neg (mt (setWidth_eq_zero (by decide)).1 h0)]
      have key := layout_i ((Rvc.addi4spnImm p).setWidth 32) 0b0010011 2 (Rvc.rs2' p) 0
      rw [BitVec.setWidth_setWidth_of_le _ (by decide)] at key
      exact key
  · exact expands_zero
  · have key := layout_i ((Rvc.lwImm p).setWidth 32) 0b0000011 (Rvc.rs1' p) (Rvc.rs2' p) 2
    rw [BitVec.setWidth_setWidth_of_le _ (by decide)] at key
    exact key
  · exact expands_zero
  · exact expands_zero
  · exact expands_zero
  · have key := layout_s ((Rvc.lwImm p).setWidth 32) 0b0100011 (Rvc.rs2' p) (Rvc.rs1' p) 2
    rw [BitVec.setWidth_setWidth_of_le _ (by decide)] at key
    exact key
  · exact expands_zero

theorem expands_shift (op : ShiftOp) (r : Reg) :
    Expands
      (op.funct7.setWidth 32 <<< 25 ||| ciShamt (p.setWidth 32) <<< 20 ||| r.setWidth 32 <<< 15 |||
        op.funct3.setWidth 32 <<< 12 ||| r.setWidth 32 <<< 7 ||| opImm)
      (if Rvc.bits p 12 1 = 0#1 then some (.shift op r r (Rvc.bits p 2 5)) else none) := by
  have key := layout_shift op.funct7 0b0010011 (Rvc.bits p 2 5) r r op.funct3 (Rvc.bits p 12 1)
  rw [← parcel_shamt] at key
  rw [show opImm = (0b0010011 : BitVec 7).setWidth 32 from rfl, key]
  rcases Bits.cases_one (Rvc.bits p 12 1) with h | h
  · rw [h, if_pos (by rfl)]
    cases op <;> rfl
  · rw [h, if_neg (by decide)]
    cases op <;> simp [Expands, decode32, immType]

theorem expands_arith : Expands (expandQ1Arith (p.setWidth 32)) (Rvc.expandArith p) := by
  simp only [expandQ1Arith, Rvc.expandArith, BitVec.ofNat_eq_ofNat, parcel_rs1', parcel_rs2',
    parcel_ciImm]
  rw [show (p.setWidth 32 >>> 10) &&& 0x3#32 = (Rvc.bits p 10 2).setWidth 32 from
      parcel_field p (n := 2) (by decide),
    show (p.setWidth 32 >>> 5) &&& 0x3#32 = (Rvc.bits p 5 2).setWidth 32 from
      parcel_field p (n := 2) (by decide),
    show (p.setWidth 32 >>> 12) &&& 0x1#32 = (Rvc.bits p 12 1).setWidth 32 from
      parcel_field p (n := 1) (by decide)]
  rcases Bits.cases_two (Rvc.bits p 10 2) with h | h | h | h <;>
    simp only [h, BitVec.reduceSetWidth, BitVec.reduceEq, ↓reduceIte, BitVec.ofNat_eq_ofNat]
  · exact expands_shift p .srli _
  · exact expands_shift p .srai _
  · have key := layout_i ((Rvc.ciImm p).signExtend 32) 0b0010011 (Rvc.rs1' p) (Rvc.rs1' p) 7
    rw [signExtend_narrow (by decide)] at key
    exact key
  · rcases Bits.cases_one (Rvc.bits p 12 1) with h12 | h12 <;>
      simp only [h12, BitVec.reduceSetWidth, BitVec.reduceEq, ↓reduceIte, BitVec.ofNat_eq_ofNat]
    · rcases Bits.cases_two (Rvc.bits p 5 2) with h5 | h5 | h5 | h5 <;>
        simp only [h5, BitVec.reduceSetWidth, BitVec.reduceEq, ↓reduceIte,
          BitVec.ofNat_eq_ofNat] <;>
        rfl
    · exact expands_zero

theorem expands_q1 : Expands (expandQ1 (p.setWidth 32)) (Rvc.expand1 p) := by
  simp only [expandQ1, Rvc.expand1, cbExpand, BitVec.ofNat_eq_ofNat, BitVec.natCast_eq_ofNat,
    parcel_funct3, parcel_rdRs1, parcel_rs1', parcel_ciImm, parcel_cjOff, parcel_cbOff,
    parcel_addi16spImm]
  have hd : (Rvc.rdRs1 p).setWidth 32 = 2#32 ↔ Rvc.rdRs1 p = 2#5 :=
    Bits.setWidth_inj (y := 2#5) (by decide)
  rcases Bits.cases_three (Rvc.bits p 13 3) with h | h | h | h | h | h | h | h <;>
    simp only [h, BitVec.reduceSetWidth, BitVec.reduceEq, ↓reduceIte, BitVec.ofNat_eq_ofNat, hd]
  · have key := layout_i ((Rvc.ciImm p).signExtend 32) 0b0010011 (Rvc.rdRs1 p) (Rvc.rdRs1 p) 0
    rw [signExtend_narrow (by decide)] at key
    exact key
  · have key := layout_j ((Rvc.cjOff p ++ 0#1).signExtend 32) 0b1101111 1
    rw [signExtend_append_narrow (by decide)] at key
    exact key
  · have key := layout_i ((Rvc.ciImm p).signExtend 32) 0b0010011 0 (Rvc.rdRs1 p) 0
    rw [signExtend_narrow (by decide)] at key
    exact key
  · by_cases h2 : Rvc.rdRs1 p = 2#5
    · rw [if_pos h2, if_pos h2]
      by_cases h0 : Rvc.addi16spImm p = 0#10
      · rw [if_pos h0, if_pos ((signExtend_eq_zero (by decide)).2 h0)]
        exact expands_zero
      · rw [if_neg h0, if_neg (mt (signExtend_eq_zero (by decide)).1 h0)]
        have key := layout_i ((Rvc.addi16spImm p).signExtend 32) 0b0010011 2 2 0
        rw [signExtend_narrow (by decide)] at key
        exact key
    · rw [if_neg h2, if_neg h2]
      by_cases h0 : Rvc.ciImm p = 0#6
      · rw [if_pos h0, if_pos ((signExtend_eq_zero (by decide)).2 h0)]
        exact expands_zero
      · rw [if_neg h0, if_neg (mt (signExtend_eq_zero (by decide)).1 h0)]
        have key := layout_u ((Rvc.ciImm p).signExtend 32) 0b0110111 (Rvc.rdRs1 p)
        rw [signExtend_narrow (by decide)] at key
        exact key
  · exact expands_arith p
  · have key := layout_j ((Rvc.cjOff p ++ 0#1).signExtend 32) 0b1101111 0
    rw [signExtend_append_narrow (by decide)] at key
    exact key
  · have key := layout_b ((Rvc.cbOff p ++ 0#1).signExtend 32) 0b1100011 0 (Rvc.rs1' p) 0
    rw [signExtend_append_narrow (by decide)] at key
    exact key
  · have key := layout_b ((Rvc.cbOff p ++ 0#1).signExtend 32) 0b1100011 0 (Rvc.rs1' p) 1
    rw [signExtend_append_narrow (by decide)] at key
    exact key

theorem expands_q2 : Expands (expandQ2 (p.setWidth 32)) (Rvc.expand2 p) := by
  simp only [expandQ2, Rvc.expand2, BitVec.ofNat_eq_ofNat, BitVec.natCast_eq_ofNat,
    parcel_funct3, parcel_rdRs1, parcel_rs2, parcel_lwspImm, parcel_swspImm]
  rw [show (p.setWidth 32 >>> 12) &&& 0x1#32 = (Rvc.bits p 12 1).setWidth 32 from
      parcel_field p (n := 1) (by decide)]
  have hd : (Rvc.rdRs1 p).setWidth 32 = 0#32 ↔ Rvc.rdRs1 p = 0#5 := setWidth_eq_zero (by decide)
  have hs : (Rvc.rs2 p).setWidth 32 = 0#32 ↔ Rvc.rs2 p = 0#5 := setWidth_eq_zero (by decide)
  rcases Bits.cases_three (Rvc.bits p 13 3) with h | h | h | h | h | h | h | h <;>
    simp only [h, BitVec.reduceSetWidth, BitVec.reduceEq, ↓reduceIte, BitVec.ofNat_eq_ofNat, hd, hs]
  · exact expands_shift p .slli _
  · exact expands_zero
  · by_cases h0 : Rvc.rdRs1 p = 0#5
    · rw [if_pos h0, if_pos h0]
      exact expands_zero
    · rw [if_neg h0, if_neg h0]
      have key := layout_i ((Rvc.lwspImm p).setWidth 32) 0b0000011 2 (Rvc.rdRs1 p) 2
      rw [BitVec.setWidth_setWidth_of_le _ (by decide)] at key
      exact key
  · exact expands_zero
  · rcases Bits.cases_one (Rvc.bits p 12 1) with h12 | h12 <;>
      simp only [h12, BitVec.reduceSetWidth, BitVec.reduceEq, ↓reduceIte, BitVec.ofNat_eq_ofNat]
    · by_cases h2 : Rvc.rs2 p = 0#5
      · rw [if_pos h2, if_pos h2]
        by_cases h0 : Rvc.rdRs1 p = 0#5
        · rw [if_pos h0, if_pos h0]
          exact expands_zero
        · rw [if_neg h0, if_neg h0]
          exact layout_i_zero 0b1100111 (Rvc.rdRs1 p) 0 0
      · rw [if_neg h2, if_neg h2]
        rfl
    · by_cases h2 : Rvc.rs2 p = 0#5
      · rw [if_pos h2, if_pos h2]
        by_cases h0 : Rvc.rdRs1 p = 0#5
        · rw [if_pos h0, if_pos h0]
          rfl
        · rw [if_neg h0, if_neg h0]
          exact layout_i_zero 0b1100111 (Rvc.rdRs1 p) 1 0
      · rw [if_neg h2, if_neg h2]
        rfl
  · exact expands_zero
  · have key := layout_s ((Rvc.swspImm p).setWidth 32) 0b0100011 (Rvc.rs2 p) 2 2
    rw [BitVec.setWidth_setWidth_of_le _ (by decide)] at key
    exact key
  · exact expands_zero

/-- **The expansion of a parcel** is the word of the instruction that RV32C assigns to it. -/
theorem expands_expandCompressed : Expands (expandCompressed p) (Rvc.expand p) := by
  simp only [expandCompressed, Rvc.expand, BitVec.ofNat_eq_ofNat, parcel_op]
  rcases Bits.cases_two (Rvc.bits p 0 2) with h | h | h | h <;>
    simp only [h, BitVec.reduceSetWidth, BitVec.reduceEq, ↓reduceIte, BitVec.ofNat_eq_ofNat]
  · exact expands_q0 p
  · exact expands_q1 p
  · exact expands_q2 p
  · exact expands_zero

/-- The instruction, if there is one, has a meaning. -/
def HasStep (o : Option Instr) : Prop :=
  ∀ i, o = some i → ∀ (ilen : Word) (s : State), ∃ r, step ilen s i = some r

theorem HasStep.none : HasStep none := fun _ h => by cases h

theorem HasStep.some {i : Instr} (h : ∀ (ilen : Word) (s : State), ∃ r, step ilen s i = some r) :
    HasStep (some i) := fun _ hi => by cases hi; exact h

theorem HasStep.ite {c : Prop} [Decidable c] {a b : Option Instr} (ha : HasStep a)
    (hb : HasStep b) : HasStep (if c then a else b) := by
  split
  · exact ha
  · exact hb

/-- The instructions that have parcels are given a meaning. -/
theorem hasStep_expand : HasStep (Rvc.expand p) := by
  unfold Rvc.expand Rvc.expand0 Rvc.expand1 Rvc.expandArith Rvc.expand2
  repeat' first
    | exact HasStep.none
    | exact HasStep.some fun _ _ => ⟨_, rfl⟩
    | apply HasStep.ite

end Quadrants

/-! ### `decode` on parcels -/

section Decode

variable {w : Word}

theorem and_ffff (w : Word) : w &&& 0xFFFF = (w.setWidth 16).setWidth 32 := by
  ext i hi
  interval_cases i <;> simp

/-- The decoder's record for a parcel that abbreviates an instruction. -/
theorem decode_of_expand (h3 : w &&& 3 ≠ 3) {i : Instr} (h : Rvc.expand (w.setWidth 16) = some i) :
    decode w = i.record ((w.setWidth 16).setWidth 32) true := by
  have hx := expands_expandCompressed (w.setWidth 16)
  rw [h] at hx
  have h0 : i.encode ≠ 0 := fun h0 => by
    have := encode_and_three i
    rw [h0] at this
    exact absurd this (by decide)
  have hx' : expandCompressed (w.setWidth 16) = i.encode := hx
  simp only [decode, if_pos h3, hx', if_neg h0, decode32_encode, and_ffff]
  rfl

/-- The decoder's record for a parcel that abbreviates no instruction. -/
theorem decode_of_expand_none (h3 : w &&& 3 ≠ 3) (h : Rvc.expand (w.setWidth 16) = none) :
    (decode w).type = .illegal ∧ (decode w).raw = (w.setWidth 16).setWidth 32 := by
  have hx := expands_expandCompressed (w.setWidth 16)
  rw [h] at hx
  have hx' : (decode32 (expandCompressed (w.setWidth 16))).type = .illegal := hx
  rw [decode, if_pos h3, and_ffff]
  by_cases h0 : expandCompressed (w.setWidth 16) = 0
  · simp only [if_pos h0, and_self]
  · simp only [if_neg h0, hx', and_self]

/-- **Compressed instructions mean what RVC says.**  The record of a parcel depends on the parcel
alone; executing it has the outcome of the instruction it abbreviates, with two bytes for the link
value and the fall-through; and a parcel that abbreviates nothing is illegal. -/
theorem execute_decode_compressed (w : Word) (h3 : w &&& 3 ≠ 3) :
    (∀ w' : Word, w'.setWidth 16 = w.setWidth 16 → decode w' = decode w) ∧
    match Rvc.expand (w.setWidth 16) with
    | some i => ∀ (s : CPUState) (m : Isa.Mem), ∃ o, step 2 (s.view m) i = some o ∧
        Meets s m (execute ramIf s (decode w) m) o
    | none => (decode w).type = .illegal ∧ (decode w).raw = (w.setWidth 16).setWidth 32 := by
  constructor
  · intro w' hw
    have h3' : w' &&& 3 = w &&& 3 := by
      have low (x : Word) : x &&& 3 = ((x.setWidth 16) &&& 3).setWidth 32 := by
        ext i hi
        interval_cases i <;> simp
      rw [low, hw, ← low]
    simp only [decode, and_ffff, hw, h3']
    rw [if_pos h3, if_pos h3]
  · cases h : Rvc.expand (w.setWidth 16) with
    | none => exact decode_of_expand_none h3 h
    | some i =>
      intro s m
      obtain ⟨o, ho⟩ := hasStep_expand _ i h 2 (s.view m)
      rw [decode_of_expand h3 h]
      exact ⟨o, ho, execute_meets s m i _ true o ho⟩

/-- `c.jr x0` is reserved. -/
theorem execute_decode_compressed_reserved :
    (0x00008002 : Word) &&& 3 ≠ 3 ∧ (decode 0x00008002).type = .illegal :=
  ⟨by decide, (execute_decode_compressed 0x00008002 (by decide)).2.1⟩

end Decode

end VirtualSoC
