import VirtualSoC.Cpu.SignedOps

/-!
# Where the signed arithmetic of the core is defined
-/

namespace VirtualSoC

open CxxInt

/-! ### Immediates -/

section

variable (instr : Word)

theorem immIChecked_eq : immIChecked instr = some (immI instr) := sshr_eq (by decide)

theorem immSChecked_eq : immSChecked instr = some (immS instr) := by
  rw [immSChecked, sshr_eq (by decide)]
  rfl

theorem immBChecked_eq : immBChecked instr = some (immB instr) := by
  rw [immBChecked, sshr_eq (by decide)]
  rfl

theorem immJChecked_eq : immJChecked instr = some (immJ instr) := by
  rw [immJChecked, sshr_eq (by decide)]
  rfl

theorem with_imm {d : DecodedInstr} {imm : Word} (h : d.imm = imm) : { d with imm } = d := by
  subst h
  rfl

theorem decode32Checked_eq : decode32Checked instr = some (decode32 instr) := by
  unfold decode32Checked
  rw [immIChecked_eq, immSChecked_eq, immBChecked_eq, immJChecked_eq]
  simp only [Option.map_some]
  -- what `decode32` takes as the immediate is seen from the opcode
  split
  next hop => exact congrArg some (with_imm (by rw [decode32, hop]; rfl))
  split
  next hop => exact congrArg some (with_imm (by rw [decode32, hop]; rfl))
  split
  next hop => exact congrArg some (with_imm (by rw [decode32, hop]; rfl))
  split
  next hop =>
    rcases hop with hop | hop
    · exact congrArg some (with_imm (by rw [decode32, hop]; rfl))
    · exact congrArg some (with_imm (by rw [decode32, hop]; rfl))
  split
  next hop => exact congrArg some (with_imm (by rw [decode32, hop]; rfl))
  rfl

end

/-! ### Parcels -/

section

variable {ci : Word} (hci : ci.toNat < 2 ^ 16)

include hci

theorem sshl_parcel {n : ℕ} (hn : n < 16) : sshl ci n = some (ci <<< n) := by
  have hpow : 2 ^ n ≤ 2 ^ 15 := Nat.pow_le_pow_right (by decide) (Nat.le_of_lt_succ hn)
  have hmul : ci.toNat * 2 ^ n ≤ ci.toNat * 2 ^ 15 := Nat.mul_le_mul_left _ hpow
  exact sshl_eq (by omega) (by omega) (by omega)

theorem cjOffsetChecked_eq : cjOffsetChecked ci = some (cjOffset ci) := by
  rw [cjOffsetChecked, sshl_parcel hci (by decide), sshl_parcel hci (by decide),
    sshl_parcel hci (by decide)]
  rfl

omit hci in
theorem cjImm20Checked_eq (off : Word) : cjImm20Checked off = some (cjImm20 off) := by
  rw [cjImm20Checked, sshl_and (by decide) (by decide) (by decide),
    sshl_and (by decide) (by decide) (by decide), sshl_and (by decide) (by decide) (by decide),
    sshl_and (by decide) (by decide) (by decide)]
  rfl

theorem cjChecked_eq {link : Word} (hlink : 2 * link.toNat < 2 ^ 32)
    (h : link.toNat * 2 ^ 7 < 2 ^ 32) :
    cjChecked ci link = some (cjImm20 (cjOffset ci) ||| (link <<< 7) ||| opJal) := by
  rw [cjChecked, cjOffsetChecked_eq hci, sshl_eq hlink (by decide) h]
  simp only [Option.bind_eq_bind, Option.bind_some, cjImm20Checked_eq]
  rfl

theorem cbOffsetChecked_eq : cbOffsetChecked ci = some (cbOffset ci) := by
  rw [cbOffsetChecked, sshl_parcel hci (by decide), sshl_parcel hci (by decide)]
  rfl

theorem cbExpandChecked_eq (f3 : Word) : cbExpandChecked ci f3 = some (cbExpand ci f3) := by
  unfold cbExpandChecked cbExpand
  simp (disch := decide) only [cbOffsetChecked_eq hci, sshl_and, sshl_eq, Option.bind_eq_bind,
    Option.bind_some]
  rfl

theorem clOffsetChecked_eq : clOffsetChecked ci = some (clOffset ci) := by
  rw [clOffsetChecked, sshl_parcel hci (by decide)]
  rfl

theorem expandQ0Checked_eq : expandQ0Checked ci = some (expandQ0 ci) := by
  unfold expandQ0Checked expandQ0
  simp (disch := decide) only [clOffsetChecked_eq hci, sshl_eq, Option.bind_eq_bind,
    Option.bind_some]
  split
  · split
    · rfl
    · rfl
  · split
    · rfl
    · split
      · rfl
      · rfl

theorem expandQ2Checked_eq : expandQ2Checked ci = some (expandQ2 ci) := by
  unfold expandQ2Checked expandQ2
  simp (disch := decide) only [sshl_parcel hci, sshl_eq, Option.bind_eq_bind, Option.bind_some]
  split
  · rfl
  split
  · split
    · rfl
    · rfl
  split
  · split
    · split
      · split
        · rfl
        · rfl
      · rfl
    · split
      · split
        · rfl
        · rfl
      · rfl
  split
  · rfl
  · rfl

theorem addi16spImmChecked_eq : addi16spImmChecked ci = some (addi16spImm ci) := by
  rw [addi16spImmChecked, sshl_parcel hci (by decide), sshl_parcel hci (by decide),
    sshl_parcel hci (by decide)]
  rfl

theorem addi16spChecked_eq : addi16spChecked ci =
    some (if addi16spImm ci = 0 then (0 : Word)
      else (addi16spImm ci <<< 20) ||| (2 <<< 15) ||| (0b000 <<< 12) ||| (2 <<< 7) ||| opImm) := by
  unfold addi16spChecked
  simp (disch := decide) only [addi16spImmChecked_eq hci, sshl_eq, Option.bind_eq_bind,
    Option.bind_some]
  split
  · rfl
  · rfl

omit hci

/-! ### C.LUI -/

/-- C.LUI with a negative immediate; its sign is bit 12. -/
structure NegativeLui (ci : Word) : Prop where
  quadrant : ci &&& 0x3 = 0b01
  funct3 : (ci >>> 13) &&& 0x7 = 0b011
  rd : (ci >>> 7) &&& 0x1F ≠ 2
  sign : (ci >>> 7) &&& 0x20#32 ≠ 0

theorem ciImm_eq (ci : Word) : ciImm ci =
    orSign (((ci >>> 7) &&& 0x20#32) ||| ((ci >>> 2) &&& 0x1F#32)) 0x20#32 0x3F#32 := rfl

theorem ciImm_sign (x y : Word) : ((x &&& 0x20#32) ||| (y &&& 0x1F#32)) &&& 0x20#32 =
    x &&& 0x20#32 := by
  rw [BitVec.and_or_distrib_right, BitVec.and_assoc, BitVec.and_assoc, BitVec.and_self,
    show 0x1F#32 &&& 0x20#32 = 0#32 by decide, BitVec.and_zero, BitVec.or_zero]

theorem cluiChecked_of_neg (h : (ci >>> 7) &&& 0x20#32 ≠ 0) : cluiChecked ci = none := by
  have hneg : (ciImm ci).toInt < 0 := by
    rw [ciImm_eq, orSign, ciImm_sign, if_pos h]
    refine of_decide_eq_true ?_
    rw [← BitVec.msb_eq_toInt, BitVec.msb_or]
    exact Bool.or_true _
  have hne : ciImm ci ≠ 0 := by
    intro hzero
    rw [hzero] at hneg
    exact absurd hneg (by decide)
  unfold cluiChecked
  dsimp only
  rw [if_neg hne, sshl_of_neg hneg]
  rfl

theorem cluiChecked_of_nonneg (h : (ci >>> 7) &&& 0x20#32 = 0) : cluiChecked ci =
    some (if ciImm ci = 0 then (0 : Word)
      else (ciImm ci <<< 12) ||| (((ci >>> 7) &&& 0x1F) <<< 7) ||| opLui) := by
  have himm : ciImm ci = (ci >>> 2) &&& 0x1F#32 := by
    rw [ciImm_eq, orSign, ciImm_sign, if_neg (not_not.2 h)]
    rw [h]
    exact BitVec.zero_or
  unfold cluiChecked
  dsimp only
  rw [himm, sshl_and (by decide) (by decide) (by decide)]
  split
  · rfl
  · rfl

include hci

theorem expandQ1Checked_eq
    (h : (ci >>> 13) &&& 0x7 = 0b011 → (ci >>> 7) &&& 0x1F ≠ 2 →
      (ci >>> 7) &&& 0x20#32 = 0) :
    expandQ1Checked ci = some (expandQ1 ci) := by
  unfold expandQ1Checked expandQ1
  simp (disch := decide) only [sshl_parcel hci, sshl_eq, cjChecked_eq hci, cbExpandChecked_eq hci,
    addi16spChecked_eq hci, Option.bind_eq_bind, Option.bind_some]
  split
  · rfl
  split
  · rfl
  split
  · rfl
  split
  next hf3 =>
    split
    · rfl
    next hr => exact cluiChecked_of_nonneg (h hf3 hr)
  split
  · rfl
  split
  · rfl
  split
  · rfl
  · rfl

omit hci in
theorem expandQ1Checked_of_neg (hf3 : (ci >>> 13) &&& 0x7 = 0b011) (hr : (ci >>> 7) &&& 0x1F ≠ 2)
    (h : (ci >>> 7) &&& 0x20#32 ≠ 0) : expandQ1Checked ci = none := by
  unfold expandQ1Checked
  dsimp only
  rw [hf3, if_neg (by decide), if_neg (by decide), if_neg (by decide), if_pos rfl, if_neg hr,
    cluiChecked_of_neg h]

omit hci in
/-- The expansion of a parcel is undefined for C.LUI with a negative immediate only. -/
theorem expandCompressedChecked_eq_some_iff (parcel : BitVec 16) :
    expandCompressedChecked parcel = some (expandCompressed parcel) ↔
      ¬ NegativeLui (parcel.setWidth 32) := by
  have hci : (parcel.setWidth 32).toNat < 2 ^ 16 := by
    rw [BitVec.toNat_setWidth]
    have hlt := parcel.isLt
    omega
  unfold expandCompressedChecked expandCompressed
  dsimp only
  split
  next hop =>
    rw [expandQ0Checked_eq hci]
    exact iff_of_true rfl fun h => absurd (hop.symm.trans h.quadrant) (by decide)
  split
  next hop =>
    by_cases hneg : NegativeLui (parcel.setWidth 32)
    · rw [expandQ1Checked_of_neg hneg.funct3 hneg.rd hneg.sign]
      exact iff_of_false (Option.some_ne_none _).symm fun h => h hneg
    · refine iff_of_true (expandQ1Checked_eq hci fun hf3 hr => ?_) hneg
      by_contra hsign
      exact hneg ⟨hop, hf3, hr, hsign⟩
  next hop =>
    refine iff_of_true ?_ fun h => hop h.quadrant
    rw [expandQ2Checked_eq hci]
    split
    · rfl
    · rfl

end

/-! ### `execute` -/

/-- An addition or a subtraction whose exact result is not in the range of an `int32_t`. -/
def SumOverflows (s : CPUState) (d : DecodedInstr) : Prop :=
  let rs1 := s.getReg d.rs1
  let rs2 := s.getReg d.rs2
  match d.type with
  | .addi => ¬ InRange 32 (rs1.toInt + d.imm.toInt)
  | .add => ¬ InRange 32 (rs1.toInt + rs2.toInt)
  | .sub => ¬ InRange 32 (rs1.toInt - rs2.toInt)
  | _ => False

theorem map_eq_some_iff_not_false {α : Type*} {o : Option Word} {v : Word} (h : o = some v)
    (f : Word → α) : o.map f = some (f v) ↔ ¬ False := by
  subst h
  exact iff_of_true rfl id

theorem executeChecked_eq_some_iff {σ : Type*} (mi : MemIf σ) (s : CPUState) (d : DecodedInstr)
    (m : σ) : executeChecked mi s d m = some (execute mi s d m) ↔ ¬ SumOverflows s d := by
  have hdef := Rv32m.defined (s.getReg d.rs1) (s.getReg d.rs2)
  have hamount (x : Word) : (x &&& 0x1F).toNat < 32 := by
    rw [BitVec.toNat_and]
    exact Nat.lt_of_le_of_lt Nat.and_le_right (by decide)
  unfold executeChecked
  dsimp only
  split
  case h_1 h =>
    simp only [execute, SumOverflows, h]
    exact (map_sadd_eq_some_iff _).trans not_not.symm
  case h_2 h =>
    simp only [execute, SumOverflows, h]
    exact map_eq_some_iff_not_false (sshr_eq (hamount _)) _
  case h_3 h =>
    simp only [execute, SumOverflows, h]
    exact (map_sadd_eq_some_iff _).trans not_not.symm
  case h_4 h =>
    simp only [execute, SumOverflows, h]
    exact (map_ssub_eq_some_iff _).trans not_not.symm
  case h_5 h =>
    simp only [execute, SumOverflows, h]
    exact map_eq_some_iff_not_false (sshr_eq (hamount _)) _
  case h_6 h =>
    simp only [execute, SumOverflows, h]
    exact map_eq_some_iff_not_false hdef.mul _
  case h_7 h =>
    simp only [execute, SumOverflows, h]
    exact map_eq_some_iff_not_false hdef.mulh _
  case h_8 h =>
    simp only [execute, SumOverflows, h]
    exact map_eq_some_iff_not_false hdef.mulhsu _
  case h_9 h =>
    simp only [execute, SumOverflows, h]
    exact map_eq_some_iff_not_false hdef.div _
  case h_10 h =>
    simp only [execute, SumOverflows, h]
    exact map_eq_some_iff_not_false hdef.divu _
  case h_11 h =>
    simp only [execute, SumOverflows, h]
    exact map_eq_some_iff_not_false hdef.rem _
  case h_12 h =>
    simp only [execute, SumOverflows, h]
    exact map_eq_some_iff_not_false hdef.remu _
  case h_13 haddi _ hadd hsub _ _ _ _ _ _ _ _ =>
    refine iff_of_true rfl ?_
    unfold SumOverflows
    split
    next h => exact absurd h haddi
    next h => exact absurd h hadd
    next h => exact absurd h hsub
    next => exact id

/-! ### The core -/

/-- Every signed expression is defined: of the expansion of `parcel`, of the decoding of `instr`, of
the M extension, and of the execution of `d`. -/
structure SignedDefined {σ : Type*} (mi : MemIf σ) (parcel : BitVec 16) (instr : Word)
    (s : CPUState) (d : DecodedInstr) (m : σ) : Prop where
  expand : expandCompressedChecked parcel = some (expandCompressed parcel)
  immI : immIChecked instr = some (immI instr)
  immS : immSChecked instr = some (immS instr)
  immB : immBChecked instr = some (immB instr)
  immJ : immJChecked instr = some (immJ instr)
  decode32 : decode32Checked instr = some (decode32 instr)
  rv32m (a b : Word) : Rv32m.Defined a b
  execute : executeChecked mi s d m = some (execute mi s d m)

/-- The signed arithmetic of the core is defined, but for C.LUI with a negative immediate and for
sums and differences that overflow. -/
theorem signedDefined_iff {σ : Type*} (mi : MemIf σ) (parcel : BitVec 16) (instr : Word)
    (s : CPUState) (d : DecodedInstr) (m : σ) :
    SignedDefined mi parcel instr s d m ↔
      ¬ NegativeLui (parcel.setWidth 32) ∧ ¬ SumOverflows s d := by
  constructor
  · intro h
    exact ⟨(expandCompressedChecked_eq_some_iff parcel).1 h.expand,
      (executeChecked_eq_some_iff mi s d m).1 h.execute⟩
  · rintro ⟨hlui, hsum⟩
    exact {
      expand := (expandCompressedChecked_eq_some_iff parcel).2 hlui
      immI := immIChecked_eq instr
      immS := immSChecked_eq instr
      immB := immBChecked_eq instr
      immJ := immJChecked_eq instr
      decode32 := decode32Checked_eq instr
      rv32m := Rv32m.defined
      execute := (executeChecked_eq_some_iff mi s d m).2 hsum }

/-- A memory that is not used. -/
def noMem : MemIf Unit where
  read _ _ _ m := (0, m)
  write _ _ _ _ m := m
  onSatpWrite m := m

/-- C.LUI of -32 to `x1`, and ADDI of 1 to the greatest number. -/
theorem signed_undefined :
    expandCompressedChecked 0x7081 = none ∧
      executeChecked noMem { regs := fun _ => 0x7FFFFFFF } (decode 0x00108093) () = none ∧
      ¬ ∀ parcel instr s d, SignedDefined noMem parcel instr s d () := by
  have hexpand : expandCompressedChecked 0x7081 = none := by decide
  refine ⟨hexpand, rfl, fun h => ?_⟩
  have hsome := (h 0x7081 0x00108093 {} {}).expand
  rw [hexpand] at hsome
  cases hsome

end VirtualSoC
