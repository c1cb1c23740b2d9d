import Mathlib.Data.List.Induction
import VirtualSoC.Bus.RegisterRun
import VirtualSoC.Platform.Config

/-!
# The audio output

`AudioOut` of `audio/audio_out.h` and `audio/audio_out.cpp`, with `on_irq` connected: the registers
of a ring buffer that nothing plays.

`audio_registers` : the block stores what is written to it, except that its STATUS is always 0: it
never reports an underrun.
-/

namespace VirtualSoC

/-- The registers of the audio output. -/
structure AudioOut where
  ringBase : Word := Cfg.audioRingDefault
  ringSize : Word := Cfg.audioRingSizeDefault
  rdPtr : Word := 0
  wrPtr : Word := 0
  sampleRate : Word := 11025
  ctrl : Word := 0
  status : Word := 0
  /-- The level last driven on `on_irq`, low before the first call. -/
  irq : Bool := false
  deriving DecidableEq, Repr

namespace AudioOut

variable (o : AudioOut) {n : ℕ}

/-- The value read and the next state; `none` where no register is. -/
def access (isWrite : Bool) (addr val : Word) : Option (Word × AudioOut) :=
  if addr = 0x00 then
    if isWrite then some (val, { o with ringBase := val }) else some (o.ringBase, o)
  else if addr = 0x04 then
    if isWrite then some (val, { o with ringSize := val }) else some (o.ringSize, o)
  else if addr = 0x08 then
    if isWrite then some (val, { o with rdPtr := val }) else some (o.rdPtr, o)
  else if addr = 0x0C then
    if isWrite then some (val, { o with wrPtr := val }) else some (o.wrPtr, o)
  else if addr = 0x10 then
    if isWrite then some (val, { o with sampleRate := val }) else some (o.sampleRate, o)
  else if addr = 0x14 then
    if isWrite then some (val, { o with ctrl := val }) else some (o.ctrl, o)
  else if addr = 0x18 then
    if isWrite then some (val, { o with status := 0, irq := false }) else some (o.status, o)
  else none

/-- `AudioOut::b_transport`. -/
def bTransport (trans : Payload n) : Option (Payload n × AudioOut) :=
  regTransport o.access o trans

end AudioOut

/-- The audio output; the outputs are the answers to the register accesses. -/
def audioMachine : Machine AudioOut RegAccess (Σ n, Payload n) := regMachine AudioOut.access

namespace AudioOut

/-- The registers that keep what is written to them, with their values after reset. -/
def resetValues : List (Word × Word) :=
  [(0x00, Cfg.audioRingDefault), (0x04, Cfg.audioRingSizeDefault), (0x08, 0), (0x0C, 0),
    (0x10, 11025), (0x14, 0)]

/-- A register is at the address; STATUS is at 0x18. -/
def IsRegister (addr : Word) : Prop := addr = 0x18 ∨ ∃ init, (addr, init) ∈ resetValues

/-- The state after the words `ws`. -/
structure After (ws : List (Word × Word)) (o : AudioOut) : Prop where
  ringBase : o.ringBase = lastTo 0x00 Cfg.audioRingDefault ws
  ringSize : o.ringSize = lastTo 0x04 Cfg.audioRingSizeDefault ws
  rdPtr : o.rdPtr = lastTo 0x08 0 ws
  wrPtr : o.wrPtr = lastTo 0x0C 0 ws
  sampleRate : o.sampleRate = lastTo 0x10 11025 ws
  ctrl : o.ctrl = lastTo 0x14 0 ws
  status : o.status = 0
  irq : o.irq = false

variable {o : AudioOut} {ws : List (Word × Word)}

theorem access_read (o : AudioOut) (addr : Word) :
    (o.access false addr 0).elim o Prod.snd = o := by
  unfold access
  simp only [Bool.false_eq_true, if_false]
  split_ifs <;> rfl

theorem After.access_storage (h : o.After ws) {addr init : Word}
    (hinit : (addr, init) ∈ resetValues) :
    o.access false addr 0 = some (lastTo addr init ws, o) := by
  simp only [resetValues, List.mem_cons, Prod.mk.injEq, List.not_mem_nil, or_false] at hinit
  rcases hinit with ⟨rfl, rfl⟩ | ⟨rfl, rfl⟩ | ⟨rfl, rfl⟩ | ⟨rfl, rfl⟩ | ⟨rfl, rfl⟩ | ⟨rfl, rfl⟩
  · exact h.ringBase ▸ rfl
  · exact h.ringSize ▸ rfl
  · exact h.rdPtr ▸ rfl
  · exact h.wrPtr ▸ rfl
  · exact h.sampleRate ▸ rfl
  · exact h.ctrl ▸ rfl

theorem After.access_status (h : o.After ws) : o.access false 0x18 0 = some (0, o) :=
  h.status ▸ rfl

/-- The registers answer reads and writes, and nothing else does. -/
theorem isSome_access (o : AudioOut) (w : Bool) (addr val : Word) :
    (o.access w addr val).isSome ↔ IsRegister addr := by
  have hreg : IsRegister addr ↔ addr = 0x00 ∨ addr = 0x04 ∨ addr = 0x08 ∨ addr = 0x0C ∨
      addr = 0x10 ∨ addr = 0x14 ∨ addr = 0x18 := by
    simp only [IsRegister, resetValues, List.mem_cons, Prod.mk.injEq, List.not_mem_nil, or_false,
      exists_or, exists_and_left, exists_eq, and_true]
    tauto
  rw [hreg]
  unfold access
  split_ifs <;> simp only [*, Option.isSome, true_or, or_true, or_self]
  exact iff_of_false Bool.false_ne_true not_false

theorem After.write (h : o.After ws) (w : Word × Word) :
    (writeReg access o w).After (ws ++ [w]) := by
  obtain ⟨addr, val⟩ := w
  have hstep {o' : AudioOut} (hb : o'.ringBase = if addr = 0x00 then val else o.ringBase)
      (hz : o'.ringSize = if addr = 0x04 then val else o.ringSize)
      (hr : o'.rdPtr = if addr = 0x08 then val else o.rdPtr)
      (hw : o'.wrPtr = if addr = 0x0C then val else o.wrPtr)
      (hs : o'.sampleRate = if addr = 0x10 then val else o.sampleRate)
      (hc : o'.ctrl = if addr = 0x14 then val else o.ctrl) (ht : o'.status = 0)
      (hi : o'.irq = false) : o'.After (ws ++ [(addr, val)]) := by
    constructor
    · rw [lastTo_snoc, hb, h.ringBase]
    · rw [lastTo_snoc, hz, h.ringSize]
    · rw [lastTo_snoc, hr, h.rdPtr]
    · rw [lastTo_snoc, hw, h.wrPtr]
    · rw [lastTo_snoc, hs, h.sampleRate]
    · rw [lastTo_snoc, hc, h.ctrl]
    · exact ht
    · exact hi
  unfold writeReg AudioOut.access
  dsimp only
  by_cases h0 : addr = 0x00
  · subst h0
    exact hstep rfl rfl rfl rfl rfl rfl h.status h.irq
  by_cases h1 : addr = 0x04
  · subst h1
    exact hstep rfl rfl rfl rfl rfl rfl h.status h.irq
  by_cases h2 : addr = 0x08
  · subst h2
    exact hstep rfl rfl rfl rfl rfl rfl h.status h.irq
  by_cases h3 : addr = 0x0C
  · subst h3
    exact hstep rfl rfl rfl rfl rfl rfl h.status h.irq
  by_cases h4 : addr = 0x10
  · subst h4
    exact hstep rfl rfl rfl rfl rfl rfl h.status h.irq
  by_cases h5 : addr = 0x14
  · subst h5
    exact hstep rfl rfl rfl rfl rfl rfl h.status h.irq
  by_cases h6 : addr = 0x18
  · subst h6
    exact hstep rfl rfl rfl rfl rfl rfl rfl rfl
  · simp only [h0, h1, h2, h3, h4, h5, h6, if_false, Option.elim_none]
    exact hstep (if_neg h0).symm (if_neg h1).symm (if_neg h2).symm (if_neg h3).symm
      (if_neg h4).symm (if_neg h5).symm h.status h.irq

theorem after_run (is : List RegAccess) : (audioMachine.run {} is).After (regWrites is) := by
  rw [audioMachine, regMachine_run access_read]
  induction regWrites is using List.reverseRecOn with
  | nil => exact ⟨rfl, rfl, rfl, rfl, rfl, rfl, rfl, rfl⟩
  | append_singleton ws w ih =>
    rw [List.foldl_append]
    exact ih.write w

end AudioOut

/-- From reset, after any register accesses: a read of a register other than STATUS finds the word
written last to its address, or the reset value; a read of STATUS finds no underrun; where no
register is, reads and writes are refused and change nothing; and the line has never been driven
high. -/
theorem audio_registers (is : List RegAccess) (a : RegAccess) :
    let s := audioMachine.run {} is
    let answer := (audioMachine.out s a).2
    (∀ init, (a.addr, init) ∈ AudioOut.resetValues → a.IsRead →
      answer.getWord = some (lastTo a.addr init (regWrites is))) ∧
    (a.addr = 0x18 → a.IsRead → answer.getWord = some 0) ∧
    (AudioOut.IsRegister a.addr → answer.response = .ok) ∧
    (¬ AudioOut.IsRegister a.addr → answer.response = .addressError ∧ audioMachine.next s a = s) ∧
    ∀ pre, pre <+: is → (audioMachine.run {} pre).irq = false := by
  have hafter := AudioOut.after_run is
  refine ⟨fun init hinit hr => ?_, fun hstatus hr => ?_, fun hreg => ?_, fun hreg => ?_,
    fun pre _ => (AudioOut.after_run pre).irq⟩
  · exact (regMachine_out_of_read hr (hafter.access_storage hinit)).2
  · exact (regMachine_out_of_read hr (hstatus ▸ hafter.access_status)).2
  · exact regMachine_out_ok fun w val => (AudioOut.isSome_access _ w _ val).2 hreg
  · exact regMachine_of_none fun w val =>
      Option.not_isSome_iff_eq_none.1 (mt (AudioOut.isSome_access _ w _ val).1 hreg)

end VirtualSoC
