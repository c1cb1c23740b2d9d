import VirtualSoC.Cpu.CsrSpec
import VirtualSoC.Cpu.Effect
import VirtualSoC.Cpu.Fields
import VirtualSoC.Cpu.Iss
import VirtualSoC.Lib.Bits

/-!
# Well-formed architectural states

`ISS.Wf` collects what holds in every state that the run loop reaches from reset: a legal
privilege, a legal `mstatus`, even `pc`, `mepc` and `sepc`, a zero `x0` and the reset `misa`.
It is preserved by one instruction (`Wf.of_leaves`), by traps (`Wf.takeTrap`) and so by every
input of the machine (`wf_run`).
-/

namespace VirtualSoC

/-! ### Even words -/

/-- Bit 0 is clear. -/
def IsEven (x : Word) : Prop := x &&& 1 = 0

instance (x : Word) : Decidable (IsEven x) := inferInstanceAs (Decidable (_ = _))

theorem isEven_iff {x : Word} : IsEven x ↔ x.toNat % 2 = 0 := by
  rw [IsEven, BitVec.toNat_eq, BitVec.toNat_and]
  exact Nat.and_one_is_mod _ ▸ Iff.rfl

theorem IsEven.add {x y : Word} (hx : IsEven x) (hy : IsEven y) : IsEven (x + y) := by
  rw [isEven_iff, BitVec.toNat_add] at *
  omega

theorem isEven_and_not_one (x : Word) : IsEven (x &&& ~~~1) := by
  rw [IsEven, BitVec.and_assoc]
  exact BitVec.and_zero

theorem isEven_instrLen (d : DecodedInstr) : IsEven d.instrLen := by
  unfold DecodedInstr.instrLen
  split <;> rfl

theorem isEven_trapTarget (tvec cause : Word) : IsEven (trapTarget tvec cause) := by
  have hbase : IsEven (tvec &&& ~~~0x3) := by
    rw [IsEven, BitVec.and_assoc]
    exact BitVec.and_zero
  unfold trapTarget
  dsimp only
  split
  · refine hbase.add ?_
    rw [isEven_iff, BitVec.toNat_mul]
    change 4 * (cause &&& 0x7FFFFFFF).toNat % 2 ^ 32 % 2 = 0
    omega
  · exact hbase

/-! ### The decoder -/

/-- The register index fits its field and the offsets of branches and JAL are even. -/
structure DecodedInstr.Wf (d : DecodedInstr) : Prop where
  rd : d.rd.toNat < 32
  imm : d.type.isJump → IsEven d.imm

theorem isEven_immB (w : Word) : IsEven (immB w) := by
  unfold IsEven immB
  ext i hi
  cases i with
  | zero => simp [BitVec.getElem_sshiftRight]
  | succ i => simp

theorem isEven_immJ (w : Word) : IsEven (immJ w) := by
  unfold IsEven immJ
  ext i hi
  cases i with
  | zero => simp [BitVec.getElem_sshiftRight]
  | succ i => simp

theorem rd_toNat_lt (w : Word) : (rd w).toNat < 32 := by
  rw [rd, BitVec.toNat_and]
  exact Nat.lt_of_le_of_lt Nat.and_le_right (by decide)

theorem DecodedInstr.Wf.of_not_jump {d : DecodedInstr} (hr : d.rd.toNat < 32)
    (h : d.type.isJump = false) : d.Wf :=
  ⟨hr, fun hj => by rw [h] at hj; cases hj⟩

theorem DecodedInstr.Wf.ite {c : Prop} [Decidable c] {a b : DecodedInstr} (ha : a.Wf) (hb : b.Wf) :
    (if c then a else b).Wf := by
  split
  · exact ha
  · exact hb

/-! The inner switches of the other opcodes select no jump. -/

theorem not_jump_ite {c : Prop} [Decidable c] {a b : InstrType} (ha : a.isJump = false)
    (hb : b.isJump = false) : (if c then a else b).isJump = false := by
  split
  · exact ha
  · exact hb

theorem loadType_not_jump (f3 : Word) : (loadType f3).isJump = false := by
  unfold loadType
  repeat' first | rfl | apply not_jump_ite

theorem storeType_not_jump (f3 : Word) : (storeType f3).isJump = false := by
  unfold storeType
  repeat' first | rfl | apply not_jump_ite

theorem immType_not_jump (f3 f7 : Word) : (immType f3 f7).isJump = false := by
  unfold immType
  repeat' first | rfl | apply not_jump_ite

theorem regType_not_jump (f3 f7 : Word) : (regType f3 f7).isJump = false := by
  unfold regType
  repeat' first | rfl | apply not_jump_ite

theorem amoType_not_jump (f3 f5 : Word) : (amoType f3 f5).isJump = false := by
  unfold amoType
  repeat' first | rfl | apply not_jump_ite

theorem privType_not_jump (f12 : Word) : (privType f12).isJump = false := by
  unfold privType
  repeat' first | rfl | apply not_jump_ite

theorem csrType_not_jump (f3 : Word) : (csrType f3).isJump = false := by
  unfold csrType
  repeat' first | rfl | apply not_jump_ite

theorem decode32_wf (w : Word) : (decode32 w).Wf := by
  have hr := rd_toNat_lt w
  have h0 : (0 : Word).toNat < 32 := by decide
  unfold decode32
  refine .ite (.of_not_jump hr rfl) ?_ -- LUI
  refine .ite (.of_not_jump hr rfl) ?_ -- AUIPC
  refine .ite ⟨hr, fun _ => isEven_immJ w⟩ ?_ -- JAL
  refine .ite (.of_not_jump hr rfl) ?_ -- JALR
  refine .ite ⟨h0, fun _ => isEven_immB w⟩ ?_ -- BRANCH
  refine .ite (.of_not_jump hr (loadType_not_jump _)) ?_
  refine .ite (.of_not_jump h0 (storeType_not_jump _)) ?_
  refine .ite (.of_not_jump hr (immType_not_jump _ _)) ?_
  refine .ite (.of_not_jump hr (regType_not_jump _ _)) ?_
  refine .ite (.of_not_jump hr (amoType_not_jump _ _)) ?_
  refine .ite (.of_not_jump h0 (not_jump_ite rfl rfl)) ?_ -- MISC-MEM
  refine .ite (.ite (.ite (.of_not_jump h0 rfl)
    (.of_not_jump h0 (privType_not_jump _)))
    (.of_not_jump hr (csrType_not_jump _))) ?_ -- SYSTEM
  exact .of_not_jump h0 rfl

theorem decode_wf (w : Word) : (decode w).Wf := by
  have h0 : (0 : Word).toNat < 32 := by decide
  unfold decode
  refine .ite (.ite (.of_not_jump h0 rfl) ?_) (decode32_wf w)
  obtain ⟨hr, hi⟩ := decode32_wf (expandCompressed (w.setWidth 16))
  exact ⟨hr, hi⟩

/-! ### The CSR file -/

/-- `mstatus.MPP`. -/
def mpp (mstatus : Word) : Word := (mstatus >>> mstatusMppShift) &&& 0x3

/-- Writable bits only, and no reserved `MPP`. -/
structure LegalMstatus (mstatus : Word) : Prop where
  within : Bits.Within mstatusWriteMask mstatus
  mpp : mpp mstatus ≠ 2

/-- The part of well-formedness that the CSR file holds. -/
structure CSRFile.Wf (c : CSRFile) : Prop where
  mstatus : LegalMstatus c.mstatus
  mepc : IsEven c.mepc
  sepc : IsEven c.sepc
  misa : c.misa = misaValue

theorem mpp_eq (x : Word) : mpp x = (x &&& mstatusMppMask) >>> 11 := by
  unfold mpp
  ext i hi
  interval_cases i <;> simp

theorem mpp_congr {x y : Word} (h : x &&& mstatusMppMask = y &&& mstatusMppMask) :
    mpp x = mpp y := by
  rw [mpp_eq, mpp_eq, h]

/-- `(mstatus & ~k) | r` changes no `MPP` when neither `k` nor `r` touches it. -/
theorem mpp_update {x k r : Word} (hk : ~~~k &&& mstatusMppMask = mstatusMppMask)
    (hr : r &&& mstatusMppMask = 0) : mpp ((x &&& ~~~k) ||| r) = mpp x :=
  mpp_congr (Bits.and_or_and_of_disjoint hr hk)

theorem mpp_clear {x k : Word} (hk : ~~~k &&& mstatusMppMask = mstatusMppMask) :
    mpp (x &&& ~~~k) = mpp x :=
  mpp_congr (Bits.and_and_of_subset hk)

theorem mpp_or {x r : Word} (hr : r &&& mstatusMppMask = 0) : mpp (x ||| r) = mpp x :=
  mpp_congr (Bits.or_and_of_disjoint hr)

theorem mpp_replace (x : Word) {r : Word} (hr : r &&& mstatusMppMask = r) :
    mpp ((x &&& ~~~mstatusMppMask) ||| r) = r >>> 11 := by
  rw [mpp_eq, Bits.clear_or_and hr]

theorem mpp_cleared (x : Word) : mpp (x &&& ~~~mstatusMppMask) = 0 := by
  have h := mpp_replace x (r := 0#32) rfl
  rwa [BitVec.or_zero] at h

theorem legalMstatus_legal (v : Word) : LegalMstatus (CSRFile.legalMstatus v) := by
  have hw : Bits.Within mstatusWriteMask (v &&& mstatusWriteMask) := .and_right v (by decide)
  unfold CSRFile.legalMstatus
  dsimp only
  split
  · refine ⟨hw.and_left _, ?_⟩
    exact fun h2 => absurd ((mpp_cleared _).symm.trans h2) (by decide)
  next h => exact ⟨hw, h⟩

namespace LegalMstatus

variable {x : Word} (h : LegalMstatus x)
include h

theorem sstatus (v : Word) :
    LegalMstatus ((x &&& ~~~sstatusMask) ||| (v &&& sstatusMask)) := by
  refine ⟨(h.within.and_left _).or (.and_right v (by decide)), ?_⟩
  rw [mpp_update (by decide) (by rw [BitVec.and_assoc]; exact BitVec.and_zero)]
  exact h.mpp

theorem mret : LegalMstatus (mretMstatus x) := by
  refine ⟨(((h.within.and_left _).or (by split <;> decide)).or (by decide)).and_left _, ?_⟩
  exact fun h2 => absurd ((mpp_cleared _).symm.trans h2) (by decide)

theorem sret : LegalMstatus (sretMstatus x) := by
  refine ⟨(((h.within.and_left _).or (by split <;> decide)).or (by decide)).and_left _, ?_⟩
  have hm : VirtualSoC.mpp (sretMstatus x) = VirtualSoC.mpp x := by
    unfold sretMstatus
    rw [mpp_clear (by decide), mpp_or (by decide), mpp_update (by decide) (by split <;> decide)]
  rw [hm]
  exact h.mpp

theorem strap (p : Priv) : LegalMstatus (strapMstatus x p) := by
  refine ⟨((((h.within.and_left _).or (by split <;> decide)).and_left _).and_left _).or
    (by split <;> decide), ?_⟩
  have hm : VirtualSoC.mpp (strapMstatus x p) = VirtualSoC.mpp x := by
    unfold strapMstatus
    rw [mpp_update (by decide) (by split <;> decide), mpp_clear (by decide),
      mpp_update (by decide) (by split <;> decide)]
  rw [hm]
  exact h.mpp

theorem mtrap {p : Priv} (hp : p = prvU ∨ p = prvS ∨ p = prvM) :
    LegalMstatus (mtrapMstatus x p) := by
  have hr : Bits.Within mstatusWriteMask (p.setWidth 32 <<< mstatusMppShift) := by
    rcases hp with rfl | rfl | rfl <;> decide
  refine ⟨((((h.within.and_left _).or (by split <;> decide)).and_left _).and_left _).or hr, ?_⟩
  have hm : VirtualSoC.mpp (mtrapMstatus x p) = (p.setWidth 32 <<< mstatusMppShift) >>> 11 := by
    unfold mtrapMstatus
    exact mpp_replace _ (by rcases hp with rfl | rfl | rfl <;> decide)
  rw [hm]
  rcases hp with rfl | rfl | rfl <;> decide

end LegalMstatus

/-- Every branch of the `switch` of `CSRFile::write` keeps the CSR file well formed. -/
theorem CSRFile.Wf.of_writeReg {c c' : CSRFile} (hc : c.Wf) {addr : BitVec 16} {v : Word}
    (h : c.writeReg addr v = some c') : c'.Wf := by
  revert c'
  unfold CSRFile.writeReg
  repeat' apply forall_some_ite
  all_goals first | rintro - c' ⟨⟩ | rintro c' ⟨⟩
  all_goals first
    | exact ⟨hc.mstatus, hc.mepc, hc.sepc, hc.misa⟩
    | exact ⟨legalMstatus_legal v, hc.mepc, hc.sepc, hc.misa⟩
    | exact ⟨hc.mstatus.sstatus v, hc.mepc, hc.sepc, hc.misa⟩
    | exact ⟨hc.mstatus, isEven_and_not_one v, hc.sepc, hc.misa⟩
    | exact ⟨hc.mstatus, hc.mepc, isEven_and_not_one v, hc.misa⟩

/-! ### The CPU state -/

/-- A well-formed architectural state. -/
structure CPUState.Wf (s : CPUState) : Prop where
  priv : s.priv = prvU ∨ s.priv = prvS ∨ s.priv = prvM
  csr : s.csr.Wf
  pc : IsEven s.pc
  x0 : s.regs 0 = 0

theorem LegalMstatus.mpp_cases {x : Word} (h : LegalMstatus x) :
    (VirtualSoC.mpp x).setWidth 8 = prvU ∨ (VirtualSoC.mpp x).setWidth 8 = prvS ∨
      (VirtualSoC.mpp x).setWidth 8 = prvM := by
  have hx : VirtualSoC.mpp x = (x.extractLsb' 11 2).setWidth 32 :=
    Bits.ushiftRight_and_ones (n := 2) x 11
  have h2 := h.mpp
  rw [hx] at h2 ⊢
  rcases Bits.cases_two (x.extractLsb' 11 2) with he | he | he | he <;> rw [he] at h2 ⊢
  · exact .inl rfl
  · exact .inr (.inl rfl)
  · exact absurd rfl h2
  · exact .inr (.inr rfl)

namespace CPUState.Wf

variable {s : CPUState} (h : s.Wf)
include h

theorem setReg_x0 {i : Word} (hi : i.toNat < 32) (v : Word) : (s.setReg i v).regs 0 = 0 := by
  unfold setReg
  split
  next h0 =>
    change Function.update s.regs (i.setWidth 5) v 0 = 0
    rw [Function.update_of_ne]
    · exact h.x0
    · intro he
      have hn : i.toNat = 0 := by
        have := congrArg BitVec.toNat he
        simp only [BitVec.toNat_setWidth] at this
        change 0 = i.toNat % 2 ^ 5 at this
        omega
      exact h0 (BitVec.eq_of_toNat_eq hn)
  · exact h.x0

/-- One instruction keeps the state well formed and sets `next_pc` to an even address. -/
theorem of_leaves {σ : Type*} {d : DecodedInstr} {e : Executed σ} (hd : d.Wf)
    (he : Leaves s d e) : e.cpu.Wf ∧ IsEven e.cpu.nextPc := by
  obtain ⟨hpc, hregs, heff⟩ := he
  have hx0 : e.cpu.regs 0 = 0 := by
    rcases hregs with hr | ⟨v, hr⟩
    · rw [hr]
      exact h.x0
    · rw [hr]
      exact h.setReg_x0 hd.rd v
  have hseq : IsEven (s.pc + d.instrLen) := h.pc.add (isEven_instrLen d)
  generalize e.res.exception = x at heff
  cases heff with
  | seq hp hc hn => exact ⟨⟨hp ▸ h.priv, hc ▸ h.csr, hpc ▸ h.pc, hx0⟩, hn ▸ hseq⟩
  | jump hp hc ht hn =>
    exact ⟨⟨hp ▸ h.priv, hc ▸ h.csr, hpc ▸ h.pc, hx0⟩, hn ▸ h.pc.add (hd.imm ht)⟩
  | jalr x hp hc hn =>
    exact ⟨⟨hp ▸ h.priv, hc ▸ h.csr, hpc ▸ h.pc, hx0⟩, hn ▸ isEven_and_not_one x⟩
  | csr addr v b hp hc hn =>
    obtain ⟨-, -, hw, -⟩ := CSRFile.write_eq_some hc
    exact ⟨⟨hp ▸ h.priv, h.csr.of_writeReg hw, hpc ▸ h.pc, hx0⟩, hn ▸ hseq⟩
  | mret ht hM hp hc hn =>
    refine ⟨⟨hp ▸ h.csr.mstatus.mpp_cases, hc ▸ ?_, hpc ▸ h.pc, hx0⟩, hn ▸ h.csr.mepc⟩
    exact ⟨h.csr.mstatus.mret, h.csr.mepc, h.csr.sepc, h.csr.misa⟩
  | sret ht hS hp hc hn =>
    refine ⟨⟨?_, hc ▸ ?_, hpc ▸ h.pc, hx0⟩, hn ▸ h.csr.sepc⟩
    · rcases hp with hp | hp
      · exact .inr (.inl hp)
      · exact .inl hp
    · exact ⟨h.csr.mstatus.sret, h.csr.mepc, h.csr.sepc, h.csr.misa⟩

/-- A trap keeps the state well formed and enters an even handler address. -/
theorem takeTrap (cause tval : Word) :
    (VirtualSoC.takeTrap s cause tval).Wf ∧ IsEven (VirtualSoC.takeTrap s cause tval).nextPc := by
  unfold VirtualSoC.takeTrap
  split
  · exact ⟨⟨.inr (.inl rfl), ⟨h.csr.mstatus.strap _, h.csr.mepc, isEven_and_not_one _, h.csr.misa⟩,
      h.pc, h.x0⟩, isEven_trapTarget _ _⟩
  · exact ⟨⟨.inr (.inr rfl), ⟨h.csr.mstatus.mtrap h.priv, isEven_and_not_one _, h.csr.sepc,
      h.csr.misa⟩, h.pc, h.x0⟩, isEven_trapTarget _ _⟩

end CPUState.Wf

/-! ### Runs -/

/-- A well-formed ISS; while it waits in WFI, `next_pc` is still to be taken. -/
structure ISS.Wf {β : Type*} (iss : ISS β) : Prop where
  state : iss.state.Wf
  wfi : iss.inWfi → IsEven iss.state.nextPc

namespace ISS.Wf

variable {β : Type*} {bus : PhysBus β}

theorem counters {c : CSRFile} (h : c.Wf) : c.incMcycle.incMinstret.Wf :=
  ⟨h.mstatus, h.mepc, h.sepc, h.misa⟩

theorem enterTrap (iss : ISS β) (h : iss.state.Wf) (cause tval : Word) :
    (iss.enterTrap cause tval).Wf := by
  obtain ⟨hw, hn⟩ := h.takeTrap cause tval
  exact ⟨⟨hw.priv, hw.csr, hn, hw.x0⟩, fun _ => hn⟩

theorem finish (iss : ISS β) (h : iss.state.Wf) (hn : IsEven iss.state.nextPc) (r : ExecResult) :
    (iss.finish bus r).Wf :=
  ⟨⟨h.priv, h.csr, hn, h.x0⟩, fun _ => hn⟩

theorem retire (iss : ISS β) (h : iss.state.Wf) (hn : IsEven iss.state.nextPc) (r : ExecResult)
    (d : DecodedInstr) : (iss.retire bus r d).1.Wf := by
  have hs : CPUState.Wf { iss.state with csr := iss.state.csr.incMcycle.incMinstret } :=
    ⟨h.priv, counters h.csr, h.pc, h.x0⟩
  unfold ISS.retire
  dsimp only
  split
  · exact ⟨hs, fun _ => hn⟩
  · split
    · obtain ⟨hw, hn'⟩ := hs.takeTrap r.cause r.tval
      exact finish _ hw hn' r
    · split
      · exact ⟨hs, fun _ => hn⟩
      · exact finish
          { iss with
            insnCount := iss.insnCount + 1
            state := { iss.state with csr := iss.state.csr.incMcycle.incMinstret } } hs hn r

theorem stepInsn (iss : ISS β) (h : iss.state.Wf) {d : DecodedInstr} (hd : d.Wf) (pick : Tlb → ℕ) :
    (iss.stepInsn bus pick d).1.Wf := by
  have hs : CPUState.Wf { iss.state with nextPc := iss.state.pc + d.instrLen } :=
    ⟨h.priv, h.csr, h.pc, h.x0⟩
  obtain ⟨hw, hn⟩ := hs.of_leaves hd
    (execute_leaves (issMemIf bus pick) _ d { iss.env with memFault := false })
  unfold ISS.stepInsn
  dsimp only
  split
  · exact enterTrap _ hw _ _
  · exact retire _ hw hn _ _

theorem iterate {iss : ISS β} (h : iss.Wf) (pick : Tlb → ℕ) : (iss.iterate bus pick).1.Wf := by
  unfold ISS.iterate
  split
  next hw => exact finish { iss with inWfi := false } h.state (h.wfi hw) {}
  · split
    · exact h
    · dsimp only
      split
      · exact enterTrap _ h.state _ _
      · split
        · exact enterTrap _ h.state _ _
        · split
          next cause env _ => exact enterTrap { iss with env } h.state _ _
          next raw env _ => exact stepInsn { iss with env } h.state (decode_wf raw) pick

theorem next {iss : ISS β} (h : iss.Wf) (i : Input β) : ((issMachine bus).next iss i).Wf := by
  cases i with
  | cycle pick => exact h.iterate pick
  | line bit v =>
    have hc : (iss.state.csr.setHwBit bit v).Wf := by
      unfold CSRFile.setHwBit
      split
      · exact ⟨h.state.csr.mstatus, h.state.csr.mepc, h.state.csr.sepc, h.state.csr.misa⟩
      · exact ⟨h.state.csr.mstatus, h.state.csr.mepc, h.state.csr.sepc, h.state.csr.misa⟩
    exact ⟨⟨h.state.priv, hc, h.state.pc, h.state.x0⟩, h.wfi⟩
  | world f => exact ⟨h.state, h.wfi⟩
  | halt => exact ⟨h.state, h.wfi⟩
  | resume => exact ⟨h.state, h.wfi⟩
  | step => exact ⟨h.state, h.wfi⟩

theorem csr_reset : CSRFile.Wf {} := ⟨⟨by decide, by decide⟩, by decide, by decide, rfl⟩

theorem reset {resetPc : Word} (hpc : IsEven resetPc) (world : β) (stop : Bool) :
    (ISS.reset resetPc world stop).Wf :=
  ⟨⟨.inr (.inr rfl), csr_reset, hpc, rfl⟩, fun h => by cases h⟩

end ISS.Wf

/-- Data accesses are never made with the reserved privilege. -/
theorem CPUState.Wf.effectiveDataPriv_ne {s : CPUState} (h : s.Wf) : s.effectiveDataPriv ≠ 2 := by
  have ne {p : Priv} (hp : p = prvU ∨ p = prvS ∨ p = prvM) : p ≠ 2 := by
    rcases hp with rfl | rfl | rfl <;> decide
  unfold effectiveDataPriv
  split
  · exact ne h.csr.mstatus.mpp_cases
  · exact ne h.priv

/-- **Well-formedness is a reachable-state invariant** of the run loop from an even reset address,
for every bus, every interleaving and every eviction choice.  In particular `pc` is even whenever
the loop tests it, and MPRV never selects the reserved privilege. -/
theorem wf_run {β : Type*} (bus : PhysBus β) {resetPc : Word} (hpc : IsEven resetPc) (world : β)
    (stop : Bool) (inputs : List (Input β)) :
    ((issMachine bus).run (ISS.reset resetPc world stop) inputs).Wf ∧
      ((issMachine bus).run (ISS.reset resetPc world stop) inputs).state.effectiveDataPriv ≠ 2 := by
  have h : ((issMachine bus).run (ISS.reset resetPc world stop) inputs).Wf :=
    Machine.run_invariant (ISS.Wf.reset hpc world stop) (fun _ i h => h.next i) inputs
  exact ⟨h, h.state.effectiveDataPriv_ne⟩

/-- A bus on which every read gives `jalr x0, 3(x0)`. -/
theorem wf_run_jalr :
    let m := issMachine ⟨fun _ _ (b : Unit) => (0x00300067, b), fun _ _ _ b => b, id⟩
    IsEven 0x1000 ∧ (m.run (.reset 0x1000 () false) [.cycle fun _ => 0]).state.pc = 2 ∧
      (m.run (.reset 0x1000 () false) [.cycle fun _ => 0]).Wf :=
  ⟨by decide, by decide, (wf_run _ (by decide) () false _).1⟩

end VirtualSoC
