import VirtualSoC.Cpu.AccessGuard
import VirtualSoC.Cpu.CompressedSpec
import VirtualSoC.Cpu.Rv32mSpec
import VirtualSoC.Isa.Program
import VirtualSoC.Platform.RamPort
import Mathlib.Order.CompletePartialOrder

/-!
# The run loop against the programs

An iteration of a hart in machine mode with interrupts off executes the next instruction of the
program in its RAM (`shows_iterate`): fetching, decoding and executing it over the bus does what
`Isa.Step` says.
-/

namespace VirtualSoC

open Isa

/-! ### The M extension -/

namespace Rv32m

variable (a b : Word)

theorem high_of_append {x y : Word} {p : ℤ} (h : (x ++ y).toInt = p) :
    x = BitVec.ofInt 32 (p / 2 ^ 32) := by
  have hy := y.isLt
  rw [BitVec.toInt_append, if_neg (by decide)] at h
  have hdiv : p / 2 ^ 32 = x.toInt := by omega
  rw [hdiv, BitVec.ofInt_toInt]

theorem mulhu_eq : mulhu a b = BitVec.ofNat 32 (a.toNat * b.toNat / 2 ^ 32) := by
  apply BitVec.eq_of_toNat_eq
  rw [mulhu, BitVec.toNat_setWidth, BitVec.toNat_ushiftRight, toNat_mul_setWidth,
    Nat.shiftRight_eq_div_pow, BitVec.toNat_ofNat]

theorem div_eq_tdiv (hb : b ≠ 0) : div a b = BitVec.ofInt 32 (a.toInt.tdiv b.toInt) := by
  by_cases hov : Overflows a b
  · obtain ⟨rfl, rfl⟩ := overflows_iff.1 hov
    decide
  · apply BitVec.eq_of_toInt_eq
    rw [div_eq hb hov, BitVec.toInt_sdiv, BitVec.toInt_ofInt]

theorem rem_eq_tmod (hb : b ≠ 0) : rem a b = BitVec.ofInt 32 (a.toInt.tmod b.toInt) := by
  by_cases hov : Overflows a b
  · obtain ⟨rfl, rfl⟩ := overflows_iff.1 hov
    decide
  · rw [← toInt_rem hb hov, BitVec.ofInt_toInt]

theorem divu_eq_div (hb : b ≠ 0) : divu a b = BitVec.ofNat 32 (a.toNat / b.toNat) := by
  have ha := a.isLt
  have hle := Nat.div_le_self a.toNat b.toNat
  apply BitVec.eq_of_toNat_eq
  rw [divu, if_neg hb, BitVec.toNat_udiv, BitVec.toNat_ofNat, Nat.mod_eq_of_lt (by omega)]

theorem remu_eq_mod (hb : b ≠ 0) : remu a b = BitVec.ofNat 32 (a.toNat % b.toNat) := by
  have ha := a.isLt
  have hle := Nat.mod_le a.toNat b.toNat
  apply BitVec.eq_of_toNat_eq
  rw [remu, if_neg hb, BitVec.toNat_umod, BitVec.toNat_ofNat,
    Nat.mod_eq_of_lt (hle.trans_lt ha)]

end Rv32m

/-- The function of `cpu/rv32m.cpp` for an operation. -/
def Isa.MulOp.fn : MulOp → Word → Word → Word
  | .mul => Rv32m.mul
  | .mulh => Rv32m.mulh
  | .mulhsu => Rv32m.mulhsu
  | .mulhu => Rv32m.mulhu
  | .div => Rv32m.div
  | .divu => Rv32m.divu
  | .rem => Rv32m.rem
  | .remu => Rv32m.remu

theorem fn_eq (op : MulOp) (a b : Word) : op.fn a b = op.eval a b := by
  have hzero (x y z : Word) (hy : b ≠ 0 → x = y) (hz : b = 0 → x = z) :
      x = if b = 0 then z else y := by
    split
    next h => exact hz h
    next h => exact hy h
  cases op with
  | mul =>
    change Rv32m.mul a b = _
    rw [Rv32m.mul_eq, MulOp.eval, BitVec.ofInt_mul, BitVec.ofInt_toInt, BitVec.ofInt_toInt]
  | mulh =>
    refine Rv32m.high_of_append (y := Rv32m.mul a b) ?_
    change (Rv32m.mulh a b ++ Rv32m.mul a b).toInt = _
    rw [Rv32m.mulh_append_mul, (Rv32m.smul_signed a b).2]
  | mulhsu =>
    refine Rv32m.high_of_append (y := Rv32m.mul a b) ?_
    change (Rv32m.mulhsu a b ++ Rv32m.mul a b).toInt = _
    rw [Rv32m.mulhsu_append_mul, (Rv32m.smul_mixed a b).2]
  | mulhu => exact Rv32m.mulhu_eq a b
  | div => exact hzero _ _ _ (Rv32m.div_eq_tdiv a b) fun h => if_pos h
  | divu => exact hzero _ _ _ (Rv32m.divu_eq_div a b) fun h => if_pos h
  | rem => exact hzero _ _ _ (Rv32m.rem_eq_tmod a b) fun h => if_pos h
  | remu => exact hzero _ _ _ (Rv32m.remu_eq_mod a b) fun h => if_pos h

/-! ### `execute` -/

theorem execute_exec (s : CPUState) (m : Isa.Mem) (i : Instr) (raw : Word) (c : Bool)
    (o : Isa.Outcome) (h : exec (i.record raw c).instrLen (s.view m) i = some o) :
    Meets s m (execute ramIf s (i.record raw c) m) o := by
  cases i with
  | mulDiv op rd rs1 rs2 =>
    obtain rfl := Option.some.inj h
    rw [← fn_eq]
    cases op <;> exact meets_setRd _ rd _
  | fence rd rs1 imm =>
    obtain rfl := Option.some.inj h
    exact meets_done rfl rfl rfl rfl
  | _ => exact execute_meets s m _ raw c o h

/-! ### Services -/

/-- What the accesses of a hart depend on, besides its memory. -/
@[ext]
structure HartMode where
  priv : Priv
  satp : Word
  mstatus : Word
  mie : Word

/-- The mode of a hart. -/
def CPUState.mode (s : CPUState) : HartMode := ⟨s.priv, s.csr.satp, s.csr.mstatus, s.csr.mie⟩

/-- No interrupt is taken. -/
def HartMode.Quiet (c : HartMode) : Prop :=
  c.mie = 0 ∨ c.priv = prvM ∧ c.mstatus &&& mstatusMie = 0

theorem CPUState.checkPendingInterrupts_of_quiet {s : CPUState} (h : s.mode.Quiet) :
    checkPendingInterrupts s = 0 := by
  unfold checkPendingInterrupts
  rcases h with hmie | ⟨hpriv, hmie⟩
  · have hpending : s.csr.getMip &&& s.csr.mie = 0 :=
      (congrArg (s.csr.getMip &&& ·) hmie).trans BitVec.and_zero
    exact if_pos hpending
  · have hpriv : s.priv = prvM := hpriv
    have hmie : s.csr.mstatus &&& mstatusMie = 0 := hmie
    simp only [hpriv, hmie]
    simp

section Services

variable {β : Type*}

/-- What a program sees: `View b r` tells that `r` is the content of the RAM, and `Q tlb r m` that
`m` is the memory of the program. -/
def Sees (View : β → Ram → Prop) (Q : Tlb → Ram → Isa.Mem → Prop) (e : Env β) (m : Isa.Mem) :
    Prop :=
  ∃ r, View e.bus r ∧ Q e.tlb r m

/-- Where fetches and data accesses at addresses of the space `A` are those of plain memory. -/
structure Serves (bus : PhysBus β) (View : β → Ram → Prop) (c : HartMode) (A : Space)
    (Q : Tlb → Ram → Isa.Mem → Prop) : Prop where
  load_of_store {a : Word} (h : A.store a) : A.load a
  flush {tlb : Tlb} {r : Ram} {m : Isa.Mem} (h : Q tlb r m) : Q flushTlb r m
  fetch (pick : Tlb → ℕ) {s : CPUState} {e : Env β} {m : Isa.Mem} (hc : s.mode = c)
    (h : Sees View Q e m) (heven : 2 ∣ s.pc.toNat) (ha : A.fetch s.pc) :
    ∃ e', VirtualSoC.fetch bus pick s e = (.ok (m.word s.pc), e') ∧ Sees View Q e' m
  read (pick : Tlb → ℕ) {s : CPUState} {e : Env β} {m : Isa.Mem} {a : Word} {k : ℕ}
    (hc : s.mode = c) (h : Sees View Q e m) (hk : AlignedAccess a k) (ha : A.load a) :
    ∃ e', memRead bus pick s a k e = (Bytes.readLE m a k, e') ∧ Sees View Q e' m ∧
      e'.memFault = e.memFault
  write (pick : Tlb → ℕ) {s : CPUState} {e : Env β} {m : Isa.Mem} {a : Word} {k : ℕ} (v : Word)
    (hc : s.mode = c) (h : Sees View Q e m) (hk : AlignedAccess a k) (ha : A.store a) :
    Sees View Q (memWrite bus pick s a v k e) (Bytes.writeLE m a v k) ∧
      (memWrite bus pick s a v k e).memFault = e.memFault

/-- The program sees `m` as in `Q`, and the RAM at the addresses `K` is that of `f`. -/
def Keeping (K : Set ℕ) (f : Ram) (Q : Tlb → Ram → Isa.Mem → Prop) (tlb : Tlb) (r : Ram)
    (m : Isa.Mem) : Prop :=
  Q tlb r m ∧ ∀ a : Word, a.toNat ∈ K → r a = f a

/-- What the program sees does not depend on the RAM at the addresses `K`. -/
def Ignores (K : Set ℕ) (Q : Tlb → Ram → Isa.Mem → Prop) : Prop :=
  ∀ ⦃tlb r r' m⦄, Q tlb r m → (∀ a : Word, a.toNat ∉ K → r' a = r a) → Q tlb r' m

/-- The space allows the accesses of an instruction. -/
theorem within_record {A : Space} {s : CPUState} {m : Isa.Mem} {i : Instr} {raw : Word} {c : Bool}
    {o : Isa.Outcome} {kind : MemKind} (hstore : ∀ a, A.store a → A.load a)
    (hx : exec (i.record raw c).instrLen (s.view m) i = some o) (hin : i.Within A (s.view m))
    (hk : (i.record raw c).type.memKind = some kind) :
    (kind.reads → A.load (accessAddr s (i.record raw c))) ∧
      (kind.writes → A.store (accessAddr s (i.record raw c))) := by
  cases i with
  | load op =>
    cases op <;> cases hk <;> exact ⟨fun _ => hin, nofun⟩
  | store op =>
    cases op <;> cases hk <;> exact ⟨nofun, fun _ => hin⟩
  | amo op =>
    cases op <;> cases hk <;> exact ⟨fun _ => hstore _ hin, fun _ => hin⟩
  | lr | sc => cases hx
  | branch op | opImm op | shift op | opReg op | mulDiv op | priv op | csr op =>
    cases op <;> cases hk
  | _ => cases hk

variable {bus : PhysBus β} {View : β → Ram → Prop} {c : HartMode} {A : Space}
  {Q : Tlb → Ram → Isa.Mem → Prop} (hserve : Serves bus View c A Q) (pick : Tlb → ℕ)

include hserve

/-- An instruction does over the bus what it does on plain memory. -/
theorem Serves.execute {s : CPUState} {d : DecodedInstr} {e : Env β} {m : Isa.Mem}
    (hc : s.mode = c)
    (hin : ∀ kind, d.type.memKind = some kind → (kind.reads → A.load (accessAddr s d)) ∧
      (kind.writes → A.store (accessAddr s d)))
    (h : Sees View Q e m) :
    Executed.Rel (fun e m => Sees View Q e m ∧ e.memFault = false)
      (VirtualSoC.execute (issMemIf bus pick) s d { e with memFault := false })
      (VirtualSoC.execute ramIf s d m) := by
  let P (f : Word → Prop) (t : CPUState) (a : Word) (k : ℕ) : Prop :=
    t.mode = c ∧ AlignedAccess a k ∧ f a
  have hrel : MemIf.Rel (fun e m => Sees View Q e m ∧ e.memFault = false)
      ((issMemIf bus pick).guard (P A.load) (P A.store)) (ramIf.guard (P A.load) (P A.store)) :=
    { read := by
        rintro e m ⟨h, hf⟩ t a k
        dsimp only [MemIf.guard, issMemIf, ramIf]
        split
        next hp =>
          obtain ⟨e', hr, hsees, hf'⟩ := hserve.read pick hp.1 h hp.2.1 hp.2.2
          rw [hr]
          exact ⟨rfl, hsees, hf'.trans hf⟩
        · exact ⟨rfl, h, hf⟩
      write := by
        rintro e m ⟨h, hf⟩ t a v k
        dsimp only [MemIf.guard, issMemIf, ramIf]
        split
        next hp =>
          obtain ⟨hsees, hf'⟩ := hserve.write pick v hp.1 h hp.2.1 hp.2.2
          exact ⟨hsees, hf'.trans hf⟩
        · exact ⟨h, hf⟩
      onSatpWrite := by
        rintro e m ⟨⟨r, hv, hq⟩, hf⟩
        exact ⟨⟨r, hv, hserve.flush hq⟩, hf⟩ }
  have hguard (kind : MemKind) (hk : d.type.memKind = some kind) (t : CPUState) (k : ℕ)
      (hp : t.priv = s.priv) (hcsr : t.csr = s.csr) (ha : AlignedAccess (accessAddr s d) k) :
      (kind.reads → P A.load t (accessAddr s d) k) ∧
        (kind.writes → P A.store t (accessAddr s d) k) := by
    have hmode : t.mode = c := by rw [← hc, CPUState.mode, hp, hcsr, CPUState.mode]
    exact ⟨fun h => ⟨hmode, ha, (hin kind hk).1 h⟩, fun h => ⟨hmode, ha, (hin kind hk).2 h⟩⟩
  rw [← execute_guard s d _ hguard, ← execute_guard s d m hguard]
  exact execute_rel hrel (m := { e with memFault := false }) ⟨h, rfl⟩ s d

end Services

/-! ### The instruction at the program counter -/

theorem op_of_expand {p : BitVec 16} {i : Instr} (h : Rvc.expand p = some i) :
    Rvc.bits p 0 2 ≠ 3 := by
  intro hop
  have hnone : Rvc.expand p = none := by
    simp only [Rvc.expand, hop]
    rfl
  rw [hnone] at h
  cases h

theorem decode_fetched {m : Isa.Mem} {pc ilen : Word} {i : Instr} (h : Fetched m pc i ilen) :
    ∃ raw c, decode (m.word pc) = i.record raw c ∧ (i.record raw c).instrLen = ilen := by
  cases h with
  | word h =>
    refine ⟨i.encode, false, ?_, rfl⟩
    rw [h, decode_encode, Instr.record_encode]
  | parcel h =>
    have hlow : (m.word pc).setWidth 16 = m.half pc := by
      refine BitVec.eq_of_getLsbD_eq fun j hj => ?_
      rw [BitVec.getLsbD_setWidth, Mem.word, Mem.half]
      simp only [BitVec.getLsbD_append]
      interval_cases j <;> simp
    have h3 : m.word pc &&& 3 ≠ 3 := by
      intro h3
      refine op_of_expand h ?_
      rw [← hlow]
      ext j hj
      have hbit := congrArg (·.getLsbD j) h3
      interval_cases j <;> simpa using hbit
    rw [← hlow] at h
    exact ⟨_, true, decode_of_expand h3 h, rfl⟩

/-! ### Iterations -/

section Iterate

variable {β : Type*} {bus : PhysBus β} {pick : Tlb → ℕ} {View : β → Ram → Prop} {c : HartMode}
  {A : Space} {Q : Tlb → Ram → Isa.Mem → Prop} {iss : ISS β} {h h' : Isa.State}

/-- An instruction that executes without a fault, an exception or a wait. -/
theorem ISS.stepInsn_done (iss : ISS β) (d : DecodedInstr)
    (hf : (iss.executed bus pick d iss.env).mem.memFault = false)
    (hr : (iss.executed bus pick d iss.env).res = {}) :
    iss.stepInsn bus pick d =
      let x := iss.executed bus pick d iss.env
      ({ iss with
          state := { x.cpu with csr := x.cpu.csr.incMcycle.incMinstret, pc := x.cpu.nextPc }
          env := { x.mem with memFault := false }
          insnCount := iss.insnCount + 1
          halted := iss.singleStep || iss.halted
          singleStep := false }, { insn := some d }) := by
  rw [ISS.stepInsn_retired d (Bool.eq_false_iff.1 hf)]
  dsimp only
  rw [hr]
  rfl

/-- A hart in the state of a program. -/
structure Shows (View : β → Ram → Prop) (c : HartMode) (Q : Tlb → Ram → Isa.Mem → Prop)
    (iss : ISS β) (h : Isa.State) : Prop where
  halted : iss.halted = false
  inWfi : iss.inWfi = false
  singleStep : iss.singleStep = false
  mode : iss.state.mode = c
  regs : iss.state.regFile = h.regs
  pc : iss.state.pc = h.pc
  mem : Sees View Q iss.env h.mem

namespace Shows

variable (hs : Shows View c Q iss h)

include hs

theorem view : iss.state.view h.mem = h := by
  rw [CPUState.view, hs.regs, hs.pc]

variable (hserve : Serves bus View c A Q) (hirq : checkPendingInterrupts iss.state = 0)
  (pick : Tlb → ℕ)

include hserve hirq

/-- The iteration executes the instruction at the program counter. -/
theorem issue (heven : 2 ∣ h.pc.toNat) (hpc : A.fetch h.pc) :
    ∃ e, iss.issue bus pick = some (decode (h.mem.word h.pc), e) ∧ Sees View Q e h.mem := by
  rw [← hs.pc] at heven hpc ⊢
  obtain ⟨e, hfetch, hsees⟩ := hserve.fetch pick hs.mode hs.mem heven hpc
  refine ⟨e, ?_, hsees⟩
  have heven : iss.state.pc &&& 1 = 0 := (Bits.and_low_eq_zero_iff (k := 1) _ (by decide)).2 heven
  unfold ISS.issue
  rw [if_neg (by simpa [hs.inWfi, hs.halted, hirq] using heven), hfetch]

/-- **An iteration executes the next instruction of the program**, and only counts in the CSRs. -/
theorem iterate (hstep : Step A h h') :
    Shows View c Q (iss.iterate bus pick).1 h' ∧
      (iss.iterate bus pick).1.state.csr = iss.state.csr.incMcycle.incMinstret ∧
      ∃ d, (iss.iterate bus pick).2 = { insn := some d } := by
  obtain ⟨hf, heven, hpc, hin, hx⟩ := hstep
  rename_i i ilen
  obtain ⟨e, hissue, hsees⟩ := hs.issue hserve hirq pick heven hpc
  obtain ⟨raw, rvc, hdecode, rfl⟩ := decode_fetched hf
  rw [hdecode] at hissue
  obtain ⟨-, hiter⟩ := ISS.iterate_of_issue hissue
  let s : CPUState := { iss.state with nextPc := iss.state.pc + (i.record raw rvc).instrLen }
  have hview : s.view h.mem = h := hs.view
  rw [← hview] at hx hin
  obtain ⟨-, -, hpriv, hcsr, hres, hstate⟩ := execute_exec s h.mem i raw rvc _ hx
  obtain ⟨hrel, hcpu, hmem, hfault⟩ := hserve.execute (s := s) pick hs.mode
    (fun _ hk => within_record (fun _ => hserve.load_of_store) hx hin hk) hsees
  rw [hiter, ISS.stepInsn_done { iss with env := e } _ hfault (hrel.trans hres)]
  rw [← hcpu] at hpriv hcsr hstate
  subst hstate
  refine ⟨⟨?_, hs.inWfi, rfl, ?_, rfl, rfl, hmem⟩, congrArg (·.incMcycle.incMinstret) hcsr, _, rfl⟩
  · dsimp only
    rw [hs.singleStep, hs.halted]
    rfl
  · rw [← hs.mode]
    have hmode (x : CPUState) (hp : x.priv = iss.state.priv) (hc : x.csr = iss.state.csr) :
        CPUState.mode { x with csr := x.csr.incMcycle.incMinstret, pc := x.nextPc } =
          iss.state.mode := by
      rw [CPUState.mode, CPUState.mode, hp, hc]
      rfl
    exact hmode _ hpriv hcsr

end Shows

end Iterate

/-! ### Machine mode -/

section Bare

variable {β : Type*} {bus : PhysBus β} {lo hi : ℕ} {View : β → Ram → Prop} {a : Word} {k : ℕ}

theorem AlignedAccess.inside (h : AlignedAccess a k) (h4 : 4 ∣ hi) (ha : a.toNat < hi) :
    (0 < k ∧ k ≤ 4) ∧ a.toNat + k ≤ hi := by
  rcases h with rfl | ⟨rfl, h⟩ | ⟨rfl, h⟩
  · omega
  · have h2 := (Bits.and_low_eq_zero_iff (k := 1) a (by decide)).1 h
    omega
  · have h4' := isAligned_iff.1 h
    omega

/-- Addresses are physical. -/
structure HartMode.Bare (c : HartMode) : Prop where
  priv : c.priv = prvM
  mprv : c.mstatus &&& mstatusMprv = 0

theorem CPUState.not_active_of_bare {s : CPUState} (h : s.mode.Bare) :
    ¬ s.mmuActiveFetch ∧ ¬ s.mmuActiveData := by
  obtain ⟨hpriv, hmprv⟩ := h
  have hpriv : s.priv = prvM := hpriv
  have hmprv : s.csr.mstatus &&& mstatusMprv = 0 := hmprv
  simp only [mmuActiveFetch, mmuActiveData, effectiveDataPriv, hpriv, hmprv]
  simp

/-- The program sees the RAM itself. -/
def Direct (_ : Tlb) (r : Ram) (m : Isa.Mem) : Prop := r = m

/-- A hart in machine mode has the RAM at its physical addresses. -/
theorem serves_bare {c : HartMode} (hc : c.Bare) (hr : RamAt bus lo hi View) (h4 : 4 ∣ hi) :
    Serves bus View c (.memory lo hi) Direct where
  load_of_store := id
  flush := id
  fetch := by
    rintro pick s e _ rfl ⟨r, hv, rfl⟩ heven ⟨hlo, hhi⟩
    obtain ⟨hval, hview⟩ := hr.read (n := 4) hv ⟨by decide, by decide⟩ hlo hhi
    refine ⟨{ e with bus := (bus.read s.pc 4 e.bus).2 }, ?_, r, hview, rfl⟩
    unfold VirtualSoC.fetch
    rw [if_neg (CPUState.not_active_of_bare hc).1, ← readLE_four, ← hval]
  read := by
    rintro pick s e _ a k rfl ⟨r, hv, rfl⟩ hk ⟨hlo, hhi⟩
    obtain ⟨hk, hend⟩ := hk.inside h4 hhi
    obtain ⟨hval, hview⟩ := hr.read hv hk hlo hend
    refine ⟨{ e with bus := (bus.read a k e.bus).2 }, ?_, ⟨r, hview, rfl⟩, rfl⟩
    rw [memRead, dataPaddr_inactive (CPUState.not_active_of_bare hc).2, ← hval]
  write := by
    rintro pick s e _ a k v rfl ⟨r, hv, rfl⟩ hk ⟨hlo, hhi⟩
    obtain ⟨hk, hend⟩ := hk.inside h4 hhi
    rw [memWrite, dataPaddr_inactive (CPUState.not_active_of_bare hc).2]
    exact ⟨⟨_, hr.write hv hk hlo hend v, rfl⟩, rfl⟩

/-- The memory at the addresses `P`, in which data accesses stay inside the words. -/
def Isa.Space.region (P : Set ℕ) : Space where
  fetch a := ∀ i < 4, a.toNat + i ∈ P
  load a := ∀ i < 4, a.toNat / 4 * 4 + i ∈ P
  store a := ∀ i < 4, a.toNat / 4 * 4 + i ∈ P

/-- The program sees the RAM at the addresses `P`. -/
def Region (P : Set ℕ) (_ : Tlb) (r : Ram) (m : Isa.Mem) : Prop :=
  ∀ a : Word, a.toNat ∈ P → r a = m a

theorem ignores_region {K P : Set ℕ} (h : Disjoint K P) : Ignores K (Region P) :=
  fun _ _ _ _ hq hout a ha => (hout a (Set.disjoint_right.1 h ha)).trans (hq a ha)

theorem AlignedAccess.inWord {P : Set ℕ} (h : AlignedAccess a k)
    (ha : ∀ i < 4, a.toNat / 4 * 4 + i ∈ P) :
    (0 < k ∧ k ≤ 4) ∧ ∀ j < k, a.toNat + j ∈ P := by
  have hword : (0 < k ∧ k ≤ 4) ∧ a.toNat % 4 + k ≤ 4 := by
    rcases h with rfl | ⟨rfl, h⟩ | ⟨rfl, h⟩
    · omega
    · have h2 := (Bits.and_low_eq_zero_iff (k := 1) a (by decide)).1 h
      omega
    · have h4 := isAligned_iff.1 h
      omega
  refine ⟨hword.1, fun j hj => ?_⟩
  have hj := ha (a.toNat % 4 + j) (by omega)
  rwa [← Nat.add_assoc, Nat.div_add_mod'] at hj

theorem toNat_add_of_lt {x : Word} {i : ℕ} (h : x.toNat + i < 2 ^ 32) :
    (x + BitVec.ofNat 32 i).toNat = x.toNat + i := by
  rw [BitVec.toNat_add, BitVec.toNat_ofNat]
  omega

theorem Region.readLE {P : Set ℕ} {tlb : Tlb} {r : Ram} {m : Isa.Mem} (h : Region P tlb r m)
    (hend : a.toNat + k ≤ 2 ^ 32) (ha : ∀ i < k, a.toNat + i ∈ P) :
    (Bytes.readLE r a k : Word) = Bytes.readLE m a k := by
  refine Bytes.readLE_congr fun i hi => h _ ?_
  rw [toNat_add_of_lt (by omega)]
  exact ha i hi

theorem Region.writeLE {P : Set ℕ} {tlb : Tlb} {r : Ram} {m : Isa.Mem} (h : Region P tlb r m)
    (hk : k ≤ 2 ^ 32) (v : Word) :
    Region P tlb (Bytes.writeLE r a v k) (Bytes.writeLE m a v k) := by
  intro x hx
  rw [Bytes.writeLE_apply hk, Bytes.writeLE_apply hk, h x hx]

/-- A hart in machine mode has the RAM at the addresses `P`, and leaves other addresses alone. -/
theorem serves_region {c : HartMode} (hc : c.Bare) (hr : RamAt bus lo hi View) (hhi : hi ≤ 2 ^ 32)
    {K P : Set ℕ} (hP : ∀ x ∈ P, lo ≤ x ∧ x < hi) (hK : Disjoint K P) (f : Ram) :
    Serves bus View c (.region P) (Keeping K f (Region P)) where
  load_of_store := id
  flush := id
  fetch := by
    rintro pick s e m rfl ⟨r, hv, hq, hkeep⟩ heven ha
    have hlo := (hP _ (ha 0 (by decide))).1
    have hlast := (hP _ (ha 3 (by decide))).2
    obtain ⟨hval, hview⟩ := hr.read (n := 4) hv ⟨by decide, by decide⟩ hlo (by omega)
    refine ⟨{ e with bus := (bus.read s.pc 4 e.bus).2 }, ?_, r, hview, hq, hkeep⟩
    unfold VirtualSoC.fetch
    rw [if_neg (CPUState.not_active_of_bare hc).1, ← readLE_four, ← hq.readLE (by omega) ha, ← hval]
  read := by
    rintro pick s e m a k rfl ⟨r, hv, hq, hkeep⟩ hk ha
    obtain ⟨hk, hin⟩ := hk.inWord ha
    have hlo := (hP _ (hin 0 hk.1)).1
    have hlast := (hP _ (hin (k - 1) (by omega))).2
    obtain ⟨hval, hview⟩ := hr.read hv hk hlo (by omega)
    refine ⟨{ e with bus := (bus.read a k e.bus).2 }, ?_, ⟨r, hview, hq, hkeep⟩, rfl⟩
    rw [memRead, dataPaddr_inactive (CPUState.not_active_of_bare hc).2, ← hq.readLE (by omega) hin,
      ← hval]
  write := by
    rintro pick s e m a k v rfl ⟨r, hv, hq, hkeep⟩ hk ha
    obtain ⟨hk, hin⟩ := hk.inWord ha
    have hlo := (hP _ (hin 0 hk.1)).1
    have hlast := (hP _ (hin (k - 1) (by omega))).2
    rw [memWrite, dataPaddr_inactive (CPUState.not_active_of_bare hc).2]
    refine ⟨⟨_, hr.write hv hk hlo (by omega) v, hq.writeLE (by omega) v, fun x hx => ?_⟩, rfl⟩
    rw [Bytes.writeLE_apply (by omega), if_neg, hkeep x hx]
    -- the bytes that are written are in `P`
    intro hlt
    refine Set.disjoint_left.1 hK hx ?_
    have hx' : x.toNat = a.toNat + (x - a).toNat := by
      have hadd := toNat_add_of_lt (x := a) (i := (x - a).toNat) (by omega)
      rwa [BitVec.ofNat_toNat, BitVec.setWidth_eq, add_sub_cancel] at hadd
    rw [hx']
    exact hin _ hlt

end Bare

end VirtualSoC
