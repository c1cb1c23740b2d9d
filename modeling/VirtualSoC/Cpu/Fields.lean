import VirtualSoC.Cpu.Rv32Defs
import VirtualSoC.Isa.Encoding
import VirtualSoC.Lib.Bits

/-!
# Fields and immediates of instruction words

The extractors of `rv32_defs.h` read the fields of a word, and `Isa.word` assembles a word from
its fields.  The lemmas of this file relate the two: `opcode_eq`, …, `immJ_eq` state each
extractor as a bit field, `word_op`, …, `word_imm20` give the fields of an assembled word, and
`word_eta` says that every word is assembled from its fields.  Together they are a simp set that
evaluates the extractors on assembled words.
-/

namespace VirtualSoC

open Isa

/-! ### Fields of a word -/

section Fields

variable (w : Word)

@[simp] theorem opcode_eq : opcode w = (w.extractLsb' 0 7).setWidth 32 := Bits.and_ones (n := 7) w

@[simp] theorem rd_eq : rd w = (w.extractLsb' 7 5).setWidth 32 :=
  Bits.ushiftRight_and_ones (n := 5) w 7

@[simp] theorem funct3_eq : funct3 w = (w.extractLsb' 12 3).setWidth 32 :=
  Bits.ushiftRight_and_ones (n := 3) w 12

@[simp] theorem rs1_eq : rs1 w = (w.extractLsb' 15 5).setWidth 32 :=
  Bits.ushiftRight_and_ones (n := 5) w 15

@[simp] theorem rs2_eq : rs2 w = (w.extractLsb' 20 5).setWidth 32 :=
  Bits.ushiftRight_and_ones (n := 5) w 20

@[simp] theorem funct7_eq : funct7 w = (w.extractLsb' 25 7).setWidth 32 :=
  Bits.ushiftRight_and_ones (n := 7) w 25

@[simp] theorem funct5_eq : funct5 w = (w.extractLsb' 27 5).setWidth 32 :=
  Bits.ushiftRight_and_ones (n := 5) w 27

@[simp] theorem funct12_eq : funct12 w = (w.extractLsb' 20 12).setWidth 32 :=
  Bits.ushiftRight_and_ones (n := 12) w 20

end Fields

/-! ### Immediates of a word

Each immediate is first read as one field of its own width, then extended. -/

/-- The 12 bits that the I format lays over `funct7` and `rs2`, the S format over `funct7` and
`rd`. -/
def joinImm (hi : BitVec 7) (lo : BitVec 5) : BitVec 12 := hi.setWidth 12 <<< 5 ||| lo.setWidth 12

/-- `imm[12:1]` of the B format from its two fields. -/
def joinB (hi : BitVec 7) (lo : BitVec 5) : BitVec 12 :=
  (hi.extractLsb' 6 1).setWidth 12 <<< 11 ||| (lo.extractLsb' 0 1).setWidth 12 <<< 10 |||
    (hi.extractLsb' 0 6).setWidth 12 <<< 4 ||| (lo.extractLsb' 1 4).setWidth 12

/-- `imm[20:1]` of the J format from the upper 20 bits of the word. -/
def joinJ (x : BitVec 20) : BitVec 20 :=
  (x.extractLsb' 19 1).setWidth 20 <<< 19 ||| (x.extractLsb' 0 8).setWidth 20 <<< 11 |||
    (x.extractLsb' 8 1).setWidth 20 <<< 10 ||| (x.extractLsb' 9 10).setWidth 20

@[simp] theorem immI_eq (w : Word) : immI w = (w.extractLsb' 20 12).signExtend 32 := by
  ext i hi
  unfold immI
  interval_cases i <;>
    simp [BitVec.getElem_signExtend, BitVec.getElem_sshiftRight, BitVec.msb_eq_getLsbD_last]

@[simp] theorem immS_eq (w : Word) :
    immS w = (joinImm (w.extractLsb' 25 7) (w.extractLsb' 7 5)).signExtend 32 := by
  ext i hi
  unfold immS joinImm
  interval_cases i <;>
    simp [BitVec.getElem_signExtend, BitVec.getElem_sshiftRight, BitVec.msb_eq_getLsbD_last]

@[simp] theorem immB_eq (w : Word) :
    immB w = (joinB (w.extractLsb' 25 7) (w.extractLsb' 7 5)).signExtend 32 <<< 1 := by
  ext i hi
  unfold immB joinB
  interval_cases i <;>
    simp [BitVec.getElem_signExtend, BitVec.getElem_sshiftRight, BitVec.msb_eq_getLsbD_last]

@[simp] theorem immU_eq (w : Word) : immU w = (w.extractLsb' 12 20).setWidth 32 <<< 12 := by
  ext i hi
  unfold immU
  interval_cases i <;> simp

@[simp] theorem immJ_eq (w : Word) :
    immJ w = (joinJ (w.extractLsb' 12 20)).signExtend 32 <<< 1 := by
  ext i hi
  unfold immJ joinJ
  interval_cases i <;>
    simp [BitVec.getElem_signExtend, BitVec.getElem_sshiftRight, BitVec.msb_eq_getLsbD_last]

/-! ### Fields of an assembled word -/

section Word

variable (f7 : BitVec 7) (s2 s1 : Reg) (f3 : BitVec 3) (d : Reg) (op : BitVec 7)

@[simp] theorem word_op : (word f7 s2 s1 f3 d op).extractLsb' 0 7 = op := by
  ext i hi
  unfold word
  interval_cases i <;> simp

@[simp] theorem word_rd : (word f7 s2 s1 f3 d op).extractLsb' 7 5 = d := by
  ext i hi
  unfold word
  interval_cases i <;> simp

@[simp] theorem word_funct3 : (word f7 s2 s1 f3 d op).extractLsb' 12 3 = f3 := by
  ext i hi
  unfold word
  interval_cases i <;> simp

@[simp] theorem word_rs1 : (word f7 s2 s1 f3 d op).extractLsb' 15 5 = s1 := by
  ext i hi
  unfold word
  interval_cases i <;> simp

@[simp] theorem word_rs2 : (word f7 s2 s1 f3 d op).extractLsb' 20 5 = s2 := by
  ext i hi
  unfold word
  interval_cases i <;> simp

@[simp] theorem word_funct7 : (word f7 s2 s1 f3 d op).extractLsb' 25 7 = f7 := by
  ext i hi
  unfold word
  interval_cases i <;> simp

@[simp] theorem word_funct5 : (word f7 s2 s1 f3 d op).extractLsb' 27 5 = f7.extractLsb' 2 5 := by
  ext i hi
  unfold word
  interval_cases i <;> simp

@[simp] theorem word_imm12 : (word f7 s2 s1 f3 d op).extractLsb' 20 12 = joinImm f7 s2 := by
  ext i hi
  unfold word joinImm
  interval_cases i <;> simp

/-- The upper 20 bits of a word, as the U and J formats see them. -/
def joinU (f7 : BitVec 7) (s2 s1 : Reg) (f3 : BitVec 3) : BitVec 20 :=
  f7.setWidth 20 <<< 13 ||| s2.setWidth 20 <<< 8 ||| s1.setWidth 20 <<< 3 ||| f3.setWidth 20

@[simp] theorem word_imm20 : (word f7 s2 s1 f3 d op).extractLsb' 12 20 = joinU f7 s2 s1 f3 := by
  ext i hi
  unfold word joinU
  interval_cases i <;> simp

end Word

theorem word_eta (w : Word) :
    word (w.extractLsb' 25 7) (w.extractLsb' 20 5) (w.extractLsb' 15 5) (w.extractLsb' 12 3)
      (w.extractLsb' 7 5) (w.extractLsb' 0 7) = w := by
  ext i hi
  unfold word
  interval_cases i <;> simp

@[simp] theorem joinImm_extract (imm : BitVec 12) :
    joinImm (imm.extractLsb' 5 7) (imm.extractLsb' 0 5) = imm := by
  ext i hi
  unfold joinImm
  interval_cases i <;> simp

@[simp] theorem joinB_extract (off : BitVec 12) :
    joinB ((off.extractLsb' 11 1).setWidth 7 <<< 6 ||| (off.extractLsb' 4 6).setWidth 7)
      ((off.extractLsb' 0 4).setWidth 5 <<< 1 ||| (off.extractLsb' 10 1).setWidth 5) = off := by
  ext i hi
  unfold joinB
  interval_cases i <;> simp

@[simp] theorem joinU_extract (imm : BitVec 20) :
    joinU (imm.extractLsb' 13 7) (imm.extractLsb' 8 5) (imm.extractLsb' 3 5)
      (imm.extractLsb' 0 3) = imm := by
  ext i hi
  unfold joinU
  interval_cases i <;> simp

@[simp] theorem joinJ_extract (off : BitVec 20) :
    joinJ ((off.extractLsb' 19 1).setWidth 20 <<< 19 |||
      (off.extractLsb' 0 10).setWidth 20 <<< 9 ||| (off.extractLsb' 10 1).setWidth 20 <<< 8 |||
      (off.extractLsb' 11 8).setWidth 20) = off := by
  ext i hi
  unfold joinJ
  interval_cases i <;> simp

@[simp] theorem extract_joinImm (hi : BitVec 7) (lo : BitVec 5) :
    (joinImm hi lo).extractLsb' 5 7 = hi ∧ (joinImm hi lo).extractLsb' 0 5 = lo := by
  unfold joinImm
  constructor <;> (ext i hi; interval_cases i <;> simp)

@[simp] theorem extract_joinB (hi : BitVec 7) (lo : BitVec 5) :
    ((joinB hi lo).extractLsb' 11 1).setWidth 7 <<< 6 |||
        ((joinB hi lo).extractLsb' 4 6).setWidth 7 = hi ∧
      ((joinB hi lo).extractLsb' 0 4).setWidth 5 <<< 1 |||
        ((joinB hi lo).extractLsb' 10 1).setWidth 5 = lo := by
  unfold joinB
  constructor <;> (ext i hi; interval_cases i <;> simp)

@[simp] theorem extract_joinU (f7 : BitVec 7) (s2 s1 : Reg) (f3 : BitVec 3) :
    (joinU f7 s2 s1 f3).extractLsb' 13 7 = f7 ∧ (joinU f7 s2 s1 f3).extractLsb' 8 5 = s2 ∧
      (joinU f7 s2 s1 f3).extractLsb' 3 5 = s1 ∧ (joinU f7 s2 s1 f3).extractLsb' 0 3 = f3 := by
  unfold joinU
  refine ⟨?_, ?_, ?_, ?_⟩ <;> (ext i hi; interval_cases i <;> simp)

@[simp] theorem extract_joinJ (x : BitVec 20) :
    ((joinJ x).extractLsb' 19 1).setWidth 20 <<< 19 |||
      ((joinJ x).extractLsb' 0 10).setWidth 20 <<< 9 |||
      ((joinJ x).extractLsb' 10 1).setWidth 20 <<< 8 |||
      ((joinJ x).extractLsb' 11 8).setWidth 20 = x := by
  ext i hi
  unfold joinJ
  interval_cases i <;> simp

theorem amoFunct7_eta (f7 : BitVec 7) :
    amoFunct7 (f7.extractLsb' 2 5) (f7.extractLsb' 0 2) = f7 := by
  ext i hi
  unfold amoFunct7
  interval_cases i <;> simp

@[simp] theorem amoFunct7_funct5 (f5 : BitVec 5) (ord : BitVec 2) :
    (amoFunct7 f5 ord).extractLsb' 2 5 = f5 := by
  ext i hi
  unfold amoFunct7
  interval_cases i <;> simp

end VirtualSoC
