import VirtualSoC.Cpu.Mmu
import VirtualSoC.Cpu.Trap
import VirtualSoC.Lib.Machine

/-!
# The instruction set simulator

`ISS` of `cpu/iss.h` and `cpu/iss.cpp`: the memory callbacks of the CPU and of the MMU, and the
loop of `ISS::run`.

The physical bus is a parameter: a `PhysBus` acting on a world `β`.  The loop runs as a SystemC
thread, so other processes act between two of its iterations only, or while it waits in WFI, which
ends an iteration here.  What they do is an input of the machine `issMachine` like the iterations
themselves: an interrupt line is driven, the world behind the bus changes, or the debugger halts,
resumes or steps the core.  A device that drives a line during a bus access does so after the
iteration: nothing between the access and the end of an iteration reads `mip`.

Simulated time (the quantum keeper) has no influence on the state and is left out.
-/

namespace VirtualSoC

/-- `bus_read` and `bus_write`, and the effect of FENCE.I on the direct memory window. -/
structure PhysBus (β : Type*) where
  read : Word → ℕ → β → Word × β
  write : Word → Word → ℕ → β → β
  dropDmi : β → β

/-- What the memory callbacks act on. -/
structure Env (β : Type*) where
  tlb : Tlb := ∅
  memFault : Bool := false
  memFaultCause : Word := 0
  memFaultVaddr : Word := 0
  bus : β

/-- The ISS. -/
structure ISS (β : Type*) where
  state : CPUState := {}
  env : Env β
  halted : Bool := false
  singleStep : Bool := false
  stopOnEbreak : Bool := false
  insnCount : BitVec 64 := 0
  /-- The thread waits in a WFI instruction. -/
  inWfi : Bool := false

/-! ### Translation -/

namespace CPUState

variable (s : CPUState)

/-- Fetches are translated. -/
def mmuActiveFetch : Bool := s.csr.satp >>> 31 ≠ 0 ∧ s.priv < 3

/-- M-mode with MPRV uses MPP for data accesses. -/
def effectiveDataPriv : Priv :=
  if s.priv = 3 ∧ s.csr.mstatus &&& mstatusMprv ≠ 0 then
    ((s.csr.mstatus >>> mstatusMppShift) &&& 0x3).setWidth 8
  else s.priv

/-- Data accesses are translated. -/
def mmuActiveData : Bool := s.csr.satp >>> 31 ≠ 0 ∧ s.effectiveDataPriv < 3

end CPUState

section Callbacks

variable {β : Type*} (bus : PhysBus β) (pick : Tlb → ℕ)

/-- The page-table callbacks of the MMU. -/
def PhysBus.ptMem : PtMem β where
  read a b := bus.read a 4 b
  write a v b := bus.write a v 4 b

/-- The common part of the memory callbacks: the physical address of a data access, or `none`
with the fault recorded. -/
def dataPaddr (s : CPUState) (vaddr : Word) (type : AccessType) (e : Env β) :
    Option Word × Env β :=
  if s.mmuActiveData then
    match translate bus.ptMem pick vaddr type s.effectiveDataPriv s.csr.satp s.csr.mstatus e.tlb
      e.bus with
    | (r, tlb, b) =>
      if r.fault then
        (none, { tlb, bus := b, memFault := true, memFaultCause := r.cause,
                 memFaultVaddr := vaddr })
      else (some r.paddr, { e with tlb, bus := b })
  else (some vaddr, e)

/-- `state.mem.read`. -/
def memRead (s : CPUState) (vaddr : Word) (bytes : ℕ) (e : Env β) : Word × Env β :=
  match dataPaddr bus pick s vaddr .load e with
  | (none, e) => (0, e)
  | (some paddr, e) =>
    let (v, b) := bus.read paddr bytes e.bus
    (v, { e with bus := b })

/-- `state.mem.write`. -/
def memWrite (s : CPUState) (vaddr data : Word) (bytes : ℕ) (e : Env β) : Env β :=
  match dataPaddr bus pick s vaddr .store e with
  | (none, e) => e
  | (some paddr, e) => { e with bus := bus.write paddr data bytes e.bus }

/-- The callbacks that the ISS connects to its CPU state. -/
def issMemIf : MemIf (Env β) where
  read := memRead bus pick
  write := memWrite bus pick
  onSatpWrite e := { e with tlb := flushTlb }

/-- The instruction word at `pc`, or the cause of the fetch page fault. -/
def fetch (s : CPUState) (e : Env β) : Except Word Word × Env β :=
  if s.mmuActiveFetch then
    match translate bus.ptMem pick s.pc .fetch s.priv s.csr.satp s.csr.mstatus e.tlb e.bus with
    | (r, tlb, b) =>
      if r.fault then (.error r.cause, { e with tlb, bus := b })
      else
        let (raw, b) := bus.read r.paddr 4 b
        (.ok raw, { e with tlb, bus := b })
  else
    let (raw, b) := bus.read s.pc 4 e.bus
    (.ok raw, { e with bus := b })

end Callbacks

/-! ### The loop of `ISS::run` -/

/-- What an iteration did. -/
structure Event where
  /-- The instruction that was executed. -/
  insn : Option DecodedInstr := none
  /-- The MMU refused a data access of the instruction. -/
  refused : Bool := false
  /-- The cause of the trap that was taken. -/
  trap : Option Word := none
  deriving DecidableEq, Repr

namespace ISS

variable {β : Type*} (bus : PhysBus β) (pick : Tlb → ℕ) (iss : ISS β)

/-- `take_trap(...); state.pc = state.next_pc; continue`. -/
def enterTrap (cause tval : Word) : ISS β :=
  let s := takeTrap iss.state cause tval
  { iss with state := { s with pc := s.nextPc } }

/-- The end of an iteration, from the test of `fence_i` on. -/
def finish (r : ExecResult) : ISS β :=
  { iss with
    env :=
      { iss.env with
        bus := if r.fenceI then bus.dropDmi iss.env.bus else iss.env.bus
        tlb := if r.sfenceVma then flushTlb else iss.env.tlb }
    state := { iss.state with pc := iss.state.nextPc }
    halted := iss.singleStep || iss.halted
    singleStep := false }

/-- The instruction has been executed and no data access was refused. -/
def retire (r : ExecResult) (d : DecodedInstr) : ISS β × Event :=
  let iss :=
    { iss with
      insnCount := iss.insnCount + 1
      state := { iss.state with csr := iss.state.csr.incMcycle.incMinstret } }
  -- the debugger stops the loop on EBREAK: no trap is taken, and the pc stays
  if r.exception ∧ r.cause = causeBreakpoint ∧ iss.stopOnEbreak then
    ({ iss with halted := true }, { insn := some d })
  else if r.exception then
    (finish bus { iss with state := takeTrap iss.state r.cause r.tval } r,
      { insn := some d, trap := some r.cause })
  -- the loop waits for an interrupt in the middle of the iteration
  else if r.wfi then ({ iss with inWfi := true }, { insn := some d })
  else (finish bus iss r, { insn := some d })

/-- Execute the decoded instruction. -/
def stepInsn (d : DecodedInstr) : ISS β × Event :=
  let s := { iss.state with nextPc := iss.state.pc + d.instrLen }
  let x := execute (issMemIf bus pick) s d { iss.env with memFault := false }
  -- `execute` runs to its end even when the MMU has refused an access: only the flag tells
  let iss := { iss with state := x.cpu, env := { x.mem with memFault := false } }
  if x.mem.memFault then
    (iss.enterTrap x.mem.memFaultCause x.mem.memFaultVaddr,
      { insn := some d, refused := true, trap := some x.mem.memFaultCause })
  else iss.retire bus x.res d

/-- One iteration of the loop, or the rest of one that waits in WFI. -/
def iterate : ISS β × Event :=
  -- what the iteration that executed WFI still has to do
  if iss.inWfi then (finish bus { iss with inWfi := false } {}, {})
  else if iss.halted then (iss, {})
  else
    let irq := checkPendingInterrupts iss.state
    if irq ≠ 0 then (iss.enterTrap irq 0, { trap := some irq })
    else if iss.state.pc &&& 1 ≠ 0 then
      (iss.enterTrap causeMisalignedFetch iss.state.pc, { trap := some causeMisalignedFetch })
    else
      match fetch bus pick iss.state iss.env with
      | (.error cause, env) =>
        (enterTrap { iss with env } cause iss.state.pc, { trap := some cause })
      | (.ok raw, env) => stepInsn bus pick { iss with env } (decode raw)

end ISS

/-! ### The machine -/

/-- What can happen next. -/
inductive Input (β : Type*)
  /-- The run loop makes an iteration. -/
  | cycle (pick : Tlb → ℕ)
  /-- A device drives an interrupt line. -/
  | line (bit : ℕ) (v : Bool)
  /-- The world behind the bus changes. -/
  | world (f : β → β)
  | halt
  | resume
  | step

/-- The ISS with everything that acts on it. -/
def issMachine {β : Type*} (bus : PhysBus β) : Machine (ISS β) (Input β) Event where
  step iss
    | .cycle pick => iss.iterate bus pick
    | .line bit v =>
      ({ iss with state := { iss.state with csr := iss.state.csr.setHwBit bit v } }, {})
    | .world f => ({ iss with env := { iss.env with bus := f iss.env.bus } }, {})
    | .halt => ({ iss with halted := true }, {})
    | .resume => ({ iss with halted := false, singleStep := false }, {})
    | .step => ({ iss with halted := false, singleStep := true }, {})

/-- The ISS when `run` starts. -/
def ISS.reset {β : Type*} (resetPc : Word) (world : β) (stopOnEbreak : Bool) : ISS β where
  state := { pc := resetPc }
  env := { bus := world }
  stopOnEbreak := stopOnEbreak

end VirtualSoC
