import Mathlib.Data.BitVec
import VirtualSoC.Cpu.Exceptions
import VirtualSoC.Lib.Counter

/-!
# Counting retired instructions

`minstreth:minstret` is to count the instructions that have completed without an exception or a
page fault.  The loop of `ISS::run` increments it after it has looked at the flag of the memory
callbacks and before it looks at the result of `execute`: an instruction whose access the MMU
refuses is left out, but one for which `execute` raises an exception is counted
(`counts_counted`).  The count is exact in the runs without such an instruction, and only in these
(`instret_exact_iff`).
-/

namespace VirtualSoC

/-! ### The counter -/

/-- The 64-bit counter `minstreth:minstret`. -/
def CSRFile.instret (c : CSRFile) : BitVec 64 := c.minstreth ++ c.minstret

/-- The carry goes from the low half into the high one. -/
theorem append_add_one (hi lo : Word) :
    (if lo + 1 = 0 then hi + 1 else hi) ++ (lo + 1) = (hi ++ lo : BitVec 64) + 1 := by
  have happ (x y : Word) : (x ++ y : BitVec 64).toNat = x.toNat * 2 ^ 32 + y.toNat := by
    rw [BitVec.toNat_append, Nat.shiftLeft_eq, Nat.mul_comm,
      ← Nat.two_pow_add_eq_or_of_lt y.isLt]
  have hinc (x : Word) : (x + 1).toNat = (x.toNat + 1) % 2 ^ 32 := BitVec.toNat_add x 1
  have hlo := lo.isLt
  have hhi := hi.isLt
  apply BitVec.eq_of_toNat_eq
  rw [show ((hi ++ lo : BitVec 64) + 1).toNat = ((hi ++ lo : BitVec 64).toNat + 1) % 2 ^ 64 from
    BitVec.toNat_add _ 1, happ, happ, hinc]
  split
  next h =>
    have hwrap : (lo.toNat + 1) % 2 ^ 32 = 0 := hinc lo ▸ congrArg BitVec.toNat h
    rw [hinc]
    omega
  next h =>
    have hwrap : (lo.toNat + 1) % 2 ^ 32 ≠ 0 := fun h' => h (BitVec.eq_of_toNat_eq (hinc lo ▸ h'))
    omega

theorem CSRFile.instret_inc (c : CSRFile) : c.incMcycle.incMinstret.instret = c.instret + 1 :=
  append_add_one c.minstreth c.minstret

/-- The instruction writes one half of the counter. -/
def WritesInstret (s : CPUState) (d : DecodedInstr) : Prop :=
  d.WritesCsr ∧ (d.csrAddr = csrMinstret ∨ d.csrAddr = csrMinstreth) ∧ ¬ s.priv < prvM

/-- A CSR write other than to the counter leaves the counter alone. -/
theorem CSRFile.writeReg_instret {c : CSRFile} {addr : BitVec 16} {v : Word} :
    ∀ c', c.writeReg addr v = some c' → addr = csrMinstret ∨ addr = csrMinstreth ∨
      c'.minstreth = c.minstreth ∧ c'.minstret = c.minstret := by
  unfold writeReg
  repeat' apply forall_some_ite
  all_goals first | rintro h c' ⟨⟩ | rintro c' ⟨⟩
  all_goals first | exact .inr (.inr ⟨rfl, rfl⟩) | exact .inl h | exact .inr (.inl h)

theorem not_lt_prvM_of_privOk {addr : BitVec 16} {priv : Priv}
    (ha : addr = csrMinstret ∨ addr = csrMinstreth) (h : CSRFile.privOk addr priv) :
    ¬ priv < prvM := by
  have hp := (privOk_iff _ _).1 h
  unfold PrivSuffices at hp
  have hlow : (addr.extractLsb' 8 2).toNat = 3 := by
    rcases ha with rfl | rfl
    · rfl
    · rfl
  rw [hlow] at hp
  rw [BitVec.lt_def, not_lt]
  exact hp

theorem CsrEffect.instret {s : CPUState} {d : DecodedInstr} {c : CSRFile} (h : CsrEffect s d c)
    (hw : ¬ WritesInstret s d) : c.instret = s.csr.instret := by
  cases h with
  | kept h => rw [h]
  | status _ h =>
    rw [h]
    rfl
  | write v b hwrites h =>
    obtain ⟨hpriv, -, hreg, -⟩ := CSRFile.write_eq_some h
    rcases CSRFile.writeReg_instret _ hreg with ha | ha | hkept
    · exact absurd ⟨hwrites, .inl ha, not_lt_prvM_of_privOk (.inl ha) hpriv⟩ hw
    · exact absurd ⟨hwrites, .inr ha, not_lt_prvM_of_privOk (.inr ha) hpriv⟩ hw
    · exact congrArg₂ (fun hi lo : Word => (hi ++ lo : BitVec 64)) hkept.1 hkept.2

/-! ### The counter along a run -/

/-- The instruction of the step was executed, and no access refused. -/
def Event.counted (e : Event) : Bool := e.insn.isSome && !e.refused

/-- The instruction of the step completed: no trap was taken for it. -/
def Event.completed (e : Event) : Bool := e.insn.isSome && e.trap.isNone

section Run

variable {β : Type*} (bus : PhysBus β)

/-- The step executes no CSR write to the counter. -/
def KeepsInstret (iss : ISS β) : Input β → Prop
  | .cycle pick => ∀ d env, iss.issue bus pick = some (d, env) → ¬ WritesInstret iss.state d
  | _ => True

/-- The step executes no instruction that raises an exception. -/
def RaisesNone (iss : ISS β) : Input β → Prop
  | .cycle pick => ∀ d env, iss.issue bus pick = some (d, env) → ¬ RaisesException iss.state d
  | _ => True

theorem takeTrap_instret (s : CPUState) (cause tval : Word) :
    (takeTrap s cause tval).csr.instret = s.csr.instret := by
  unfold takeTrap
  split
  · rfl
  · rfl

variable {bus} {pick : Tlb → ℕ} {iss : ISS β}

theorem retire_instret (r : ExecResult) (d : DecodedInstr) :
    (iss.retire bus r d).1.state.csr.instret = iss.state.csr.instret + 1 := by
  rw [← CSRFile.instret_inc]
  unfold ISS.retire
  dsimp only
  split
  · rfl
  · split
    · exact takeTrap_instret ..
    · split
      · rfl
      · rfl

/-- The flag of the memory callbacks decides what is counted. -/
theorem stepInsn_counted (d : DecodedInstr) :
    (ISS.stepInsn bus pick iss d).2.counted =
      !(iss.executed bus pick d iss.env).mem.memFault := by
  have hrefused : (ISS.stepInsn bus pick iss d).2.refused =
      (iss.executed bus pick d iss.env).mem.memFault :=
    Bool.eq_iff_iff.2 (ISS.stepInsn_refused_iff d)
  rw [Event.counted, (ISS.stepInsn_spec d).2.2, hrefused]
  rfl

theorem stepInsn_instret {d : DecodedInstr} (hw : ¬ WritesInstret iss.state d) :
    (ISS.stepInsn bus pick iss d).1.state.csr.instret =
      iss.state.csr.instret + if (ISS.stepInsn bus pick iss d).2.counted then 1 else 0 := by
  have hout := execute_outcome (issMemIf bus pick)
    (iss.state.fallThrough (iss.state.pc + d.instrLen)) d { iss.env with memFault := false }
  have hkept : (iss.executed bus pick d iss.env).cpu.csr.instret = iss.state.csr.instret :=
    hout.csr.instret hw
  rw [stepInsn_counted]
  by_cases hm : (iss.executed bus pick d iss.env).mem.memFault
  · rw [ISS.stepInsn_refused d hm, hm, Bool.not_true, if_neg Bool.false_ne_true, ← hkept]
    exact (takeTrap_instret ..).trans (BitVec.add_zero _).symm
  · rw [ISS.stepInsn_retired d hm, Bool.eq_false_iff.2 hm, Bool.not_false, if_pos rfl, ← hkept]
    exact retire_instret ..

/-- The two ways of counting differ for an instruction that raises an exception. -/
theorem stepInsn_completed_iff (hstop : iss.stopOnEbreak = false) (d : DecodedInstr) :
    (ISS.stepInsn bus pick iss d).2.counted = (ISS.stepInsn bus pick iss d).2.completed ↔
      ¬ RaisesException iss.state d := by
  have hout := execute_outcome (issMemIf bus pick)
    (iss.state.fallThrough (iss.state.pc + d.instrLen)) d { iss.env with memFault := false }
  have hexc : (iss.executed bus pick d iss.env).res.exception ↔ RaisesException iss.state d :=
    hout.exception
  rw [stepInsn_counted, ← hexc, Event.completed, (ISS.stepInsn_spec d).2.2, Option.isSome_some,
    Bool.true_and]
  by_cases hm : (iss.executed bus pick d iss.env).mem.memFault
  · rw [ISS.stepInsn_refused d hm, hm]
    refine iff_of_true rfl fun h => ?_
    -- the exception comes before any access
    have hfault := memFault_of_exception h
    exact Bool.false_ne_true (hfault.symm.trans hm)
  · rw [ISS.stepInsn_retired d hm, Bool.eq_false_iff.2 hm, Bool.not_false]
    rw [eq_comm, Option.isNone_iff_eq_none, (ISS.retire_spec d _).2.2.2]
    rw [or_iff_left fun h => Bool.false_ne_true (hstop.symm.trans h.2)]
    exact Bool.eq_false_iff

/-- An iteration that executes no instruction leaves the counter alone. -/
theorem idle_instret {x : ISS β × Event} (h : ISS.Idle bus iss x) :
    x.1.state.csr.instret = iss.state.csr.instret ∧ x.2.insn = none := by
  cases h with
  | wake => exact ⟨rfl, rfl⟩
  | halted => exact ⟨rfl, rfl⟩
  | trap => exact ⟨takeTrap_instret .., rfl⟩

theorem setHwBit_instret (c : CSRFile) (bit : ℕ) (v : Bool) :
    (c.setHwBit bit v).instret = c.instret := by
  unfold CSRFile.setHwBit
  split
  · rfl
  · rfl

/-- Every step counts the instructions that are executed without a refused access. -/
theorem counts_counted (i : Input β) (h : KeepsInstret bus iss i) :
    (issMachine bus).Counts (fun iss => iss.state.csr.instret) Event.counted iss i := by
  cases i with
  | cycle pick =>
    cases hissue : iss.issue bus pick with
    | none =>
      obtain ⟨hkept, hinsn⟩ := idle_instret (ISS.iterate_idle hissue)
      have hcounted : (iss.iterate bus pick).2.counted = false := by rw [Event.counted, hinsn]; rfl
      have hstep : (issMachine bus).step iss (.cycle pick) = iss.iterate bus pick := rfl
      rw [Machine.Counts, Machine.next, Machine.out, hstep, hkept, hcounted]
      exact (BitVec.add_zero _).symm
    | some x =>
      obtain ⟨d, env⟩ := x
      have hstep : (issMachine bus).step iss (.cycle pick) =
          ISS.stepInsn bus pick { iss with env } d := (ISS.iterate_of_issue hissue).2
      rw [Machine.Counts, Machine.next, Machine.out, hstep]
      have hw : ¬ WritesInstret ({ iss with env } : ISS β).state d := h d env hissue
      exact stepInsn_instret hw
  | line bit v => exact (setHwBit_instret ..).trans (BitVec.add_zero _).symm
  | world | halt | resume | step => exact (BitVec.add_zero _).symm

theorem counted_eq_completed_iff (hstop : iss.stopOnEbreak = false) (i : Input β) :
    ((issMachine bus).out iss i).counted = ((issMachine bus).out iss i).completed ↔
      RaisesNone bus iss i := by
  cases i with
  | cycle pick =>
    cases hissue : iss.issue bus pick with
    | none =>
      have hinsn := (idle_instret (ISS.iterate_idle hissue)).2
      refine iff_of_true ?_ fun d env h => by cases hissue.symm.trans h
      unfold Machine.out issMachine Event.counted Event.completed
      dsimp only
      rw [hinsn]
      rfl
    | some x =>
      obtain ⟨d, env⟩ := x
      unfold Machine.out issMachine
      dsimp only
      rw [(ISS.iterate_of_issue hissue).2]
      have hstop' : ({ iss with env } : ISS β).stopOnEbreak = false := hstop
      refine (stepInsn_completed_iff hstop' d).trans ⟨?_, ?_⟩
      · intro h d' env' h'
        cases hissue.symm.trans h'
        exact h
      · exact fun h => h d env hissue
  | line | world | halt | resume | step => exact iff_of_true rfl trivial

/-- No step changes what the debugger has chosen for EBREAK. -/
theorem next_stopOnEbreak (i : Input β) :
    ((issMachine bus).next iss i).stopOnEbreak = iss.stopOnEbreak := by
  cases i with
  | cycle pick =>
    unfold Machine.next issMachine
    dsimp only
    cases hissue : iss.issue bus pick with
    | none =>
      have hidle := ISS.iterate_idle hissue
      generalize iss.iterate bus pick = x at hidle
      cases hidle with
      | wake | halted | trap => rfl
    | some x =>
      rw [(ISS.iterate_of_issue hissue).2]
      unfold ISS.stepInsn ISS.retire
      dsimp only
      repeat' split
      all_goals rfl
  | line | world | halt | resume | step => rfl

end Run

/-- **The counter is the number of completed instructions after every part of a run exactly when
no instruction of the run raises an exception.** -/
theorem instret_exact_iff {β : Type*} (bus : PhysBus β) (iss : ISS β) (is : List (Input β))
    (hstop : iss.stopOnEbreak = false) (hcsr : (issMachine bus).Along (KeepsInstret bus) iss is) :
    (∀ pre, pre <+: is → ((issMachine bus).run iss pre).state.csr.instret =
        iss.state.csr.instret +
          BitVec.ofNat 64 (((issMachine bus).trace iss pre).countP Event.completed)) ↔
      (issMachine bus).Along (RaisesNone bus) iss is := by
  have hcounts := hcsr.mono fun _ i hi => counts_counted i hi
  have : NeZero (1 : BitVec 64) := ⟨by decide⟩
  refine (Machine.counts_iff (q := Event.completed) hcounts).trans ⟨fun h => ?_, fun h => ?_⟩
  · exact Machine.along_of_invariant_along hstop (fun s i hs _ => (next_stopOnEbreak i).trans hs)
      (fun s i hs hi => (counted_eq_completed_iff hs i).1 hi) h
  · exact Machine.along_of_invariant_along hstop (fun s i hs _ => (next_stopOnEbreak i).trans hs)
      (fun s i hs hi => (counted_eq_completed_iff hs i).2 hi) h

/-- Memory in which every word is `w`. -/
def constBus (w : Word) : PhysBus Unit where
  read _ _ b := (w, b)
  write _ _ _ b := b
  dropDmi b := b

/-- A NOP, with the counter about to wrap. -/
theorem instret_exact_iff_nop :
    let iss : ISS Unit := { state := { csr := { minstret := 0xFFFFFFFF } }, env := { bus := () } }
    (∀ pre, pre <+: [.cycle fun _ => 0] →
      ((issMachine (constBus 0x13)).run iss pre).state.csr.instret = iss.state.csr.instret +
        BitVec.ofNat 64 (((issMachine (constBus 0x13)).trace iss pre).countP Event.completed)) ↔
      (issMachine (constBus 0x13)).Along (RaisesNone (constBus 0x13)) iss
        [.cycle fun _ => 0] := by
  refine instret_exact_iff _ _ _ rfl ⟨?_, trivial⟩
  rintro d env h ⟨hw, -⟩
  cases h
  revert hw
  unfold DecodedInstr.WritesCsr
  decide

/-- The all-zero word is no instruction, but it is counted. -/
theorem not_instret_exact :
    ¬ ∀ (iss : ISS Unit) (is : List (Input Unit)), iss.stopOnEbreak = false →
      (issMachine (constBus 0)).Along (KeepsInstret (constBus 0)) iss is →
        ((issMachine (constBus 0)).run iss is).state.csr.instret = iss.state.csr.instret +
          BitVec.ofNat 64 (((issMachine (constBus 0)).trace iss is).countP Event.completed) := by
  intro h
  have hone := h { env := { bus := () } } [.cycle fun _ => 0] rfl ⟨?_, trivial⟩
  · exact absurd hone (by decide)
  · rintro d env hissue ⟨hw, -⟩
    cases hissue
    revert hw
    unfold DecodedInstr.WritesCsr
    decide

end VirtualSoC
