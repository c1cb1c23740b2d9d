import Mathlib.Data.List.Induction
import VirtualSoC.Bus.RegisterRun

/-!
# The SPI master

`SPI` of `io/spi.h` and `io/spi.cpp`.  What `on_transfer` is connected to is a parameter: a machine
that answers each byte with a byte, or nothing.

`spi_exchanges` : the slave sees the bytes transmitted, in order, each of them once, and the receive
register holds its last answer.
-/

namespace VirtualSoC

/-- The registers of the controller, and the slave that is bound to it. -/
structure Spi (σ : Type*) where
  rxData : Byte := 0xFF
  clkDiv : Word := 0
  config : Word := 0
  /-- The state of what `on_transfer` is connected to. -/
  slave : σ

namespace Spi

variable {σ : Type*} (onTransfer : Option (Machine σ Byte Byte)) (s : Spi σ) {n : ℕ}

/-- A byte is transmitted, and another one received. -/
def transfer (byte : Byte) : Spi σ :=
  match onTransfer with
  | some m => { s with rxData := m.out s.slave byte, slave := m.next s.slave byte }
  | none => { s with rxData := 0xFF }

/-- The value read and the next state; `none` where no register is. -/
def access (isWrite : Bool) (addr val : Word) : Option (Word × Spi σ) :=
  if addr = 0x00 then
    if isWrite then some (val, s.transfer onTransfer (val.setWidth 8)) else some (0, s)
  else if addr = 0x04 then some (s.rxData.setWidth 32, s)
  -- always ready
  else if addr = 0x08 then some (1, s)
  else if addr = 0x0C then
    if isWrite then some (val, { s with clkDiv := val }) else some (s.clkDiv, s)
  else if addr = 0x10 then
    if isWrite then some (val, { s with config := val }) else some (s.config, s)
  else none

/-- `SPI::b_transport`. -/
def bTransport (trans : Payload n) : Option (Payload n × Spi σ) :=
  regTransport (s.access onTransfer) s trans

end Spi

section

variable {σ : Type*}

/-- The master; the outputs are the answers to the register accesses. -/
def spiMachine (onTransfer : Option (Machine σ Byte Byte)) :
    Machine (Spi σ) RegAccess (Σ n, Payload n) :=
  regMachine (Spi.access onTransfer)

/-- The byte that a word written transmits. -/
def sentByte (w : Word × Word) : Option Byte :=
  if w.1 = 0x00 then some (w.2.setWidth 8) else none

/-- The bytes transmitted. -/
def transmitted (ws : List (Word × Word)) : List Byte := ws.filterMap sentByte

theorem transmitted_snoc (ws : List (Word × Word)) (w : Word × Word) :
    transmitted (ws ++ [w]) =
      transmitted ws ++ if w.1 = 0x00 then [w.2.setWidth 8] else [] := by
  rw [transmitted, List.filterMap_append, transmitted]
  by_cases h : w.1 = 0x00
  · have hsent : sentByte w = some (w.2.setWidth 8) := if_pos h
    rw [if_pos h, List.filterMap_cons_some hsent, List.filterMap_nil]
  · have hsent : sentByte w = none := if_neg h
    rw [if_neg h, List.filterMap_cons_none hsent, List.filterMap_nil]

namespace Spi

variable {onTransfer : Option (Machine σ Byte Byte)} {s : Spi σ} {ws : List (Word × Word)}

theorem access_read (onTransfer : Option (Machine σ Byte Byte)) (s : Spi σ) (addr : Word) :
    (s.access onTransfer false addr 0).elim s Prod.snd = s := by
  unfold access
  simp only [Bool.false_eq_true, if_false]
  split_ifs <;> rfl

/-- A write that transmits nothing leaves the slave and the receive register. -/
theorem writeReg_of_ne (onTransfer : Option (Machine σ Byte Byte)) (s : Spi σ)
    {w : Word × Word} (h : w.1 ≠ 0x00) :
    (writeReg (access onTransfer) s w).slave = s.slave ∧
      (writeReg (access onTransfer) s w).rxData = s.rxData := by
  unfold writeReg access
  rw [if_neg h]
  split_ifs <;> exact ⟨rfl, rfl⟩

/-- The bytes `bs` have been exchanged with the slave `m`, which was in the state `q`. -/
structure Exchanged (m : Machine σ Byte Byte) (q : σ) (bs : List Byte) (s : Spi σ) : Prop where
  slave : s.slave = m.run q bs
  rxData : s.rxData = (m.trace q bs).getLastD 0xFF

theorem Exchanged.transfer {m : Machine σ Byte Byte} {q : σ} {bs : List Byte}
    (h : s.Exchanged m q bs) (b : Byte) :
    (s.transfer (some m) b).Exchanged m q (bs ++ [b]) where
  slave := by
    rw [Machine.run_snoc, ← h.slave]
    rfl
  rxData := by
    rw [Machine.trace_snoc, List.getLastD_concat, ← h.slave]
    rfl

theorem Exchanged.write {m : Machine σ Byte Byte} {q : σ} (h : s.Exchanged m q (transmitted ws))
    (w : Word × Word) :
    (writeReg (access (some m)) s w).Exchanged m q (transmitted (ws ++ [w])) := by
  rw [transmitted_snoc]
  by_cases hw : w.1 = 0x00
  · rw [if_pos hw, writeReg, access, if_pos hw, if_pos rfl]
    exact h.transfer _
  · obtain ⟨hslave, hrx⟩ := writeReg_of_ne (some m) s hw
    rw [if_neg hw, List.append_nil]
    exact ⟨hslave.trans h.slave, hrx.trans h.rxData⟩

end Spi

/-- From reset, after any register accesses: the slave has been handed the bytes transmitted, each
of them once and in order, and a read of the receive register finds its answer to the last one, or
0xFF before the first; without a slave it finds 0xFF. -/
theorem spi_exchanges (m : Machine σ Byte Byte) (q : σ) (is : List RegAccess) (a : RegAccess) :
    ((spiMachine (some m)).run { slave := q } is).slave = m.run q (transmitted (regWrites is)) ∧
    (a.IsRead → a.addr = 0x04 →
      ((spiMachine (some m)).out ((spiMachine (some m)).run { slave := q } is) a).2.getWord =
          some (((m.trace q (transmitted (regWrites is))).getLastD 0xFF).setWidth 32) ∧
        ((spiMachine none).out ((spiMachine none).run { slave := q } is) a).2.getWord =
          some 0xFF) := by
  have h : ((spiMachine (some m)).run { slave := q } is).Exchanged m q
      (transmitted (regWrites is)) := by
    rw [spiMachine, regMachine_run (Spi.access_read _)]
    induction regWrites is using List.reverseRecOn with
    | nil => exact ⟨rfl, rfl⟩
    | append_singleton ws w ih =>
      rw [List.foldl_append]
      exact ih.write w
  have hnone : ((spiMachine none).run { slave := q } is).rxData = 0xFF := by
    rw [spiMachine, regMachine_run (Spi.access_read _)]
    induction regWrites is using List.reverseRecOn with
    | nil => rfl
    | append_singleton ws w ih =>
      rw [List.foldl_append, List.foldl_cons, List.foldl_nil]
      by_cases hw : w.1 = 0x00
      · rw [writeReg, Spi.access, if_pos hw]
        rfl
      · exact (Spi.writeReg_of_ne none _ hw).2.trans ih
  refine ⟨h.slave, fun hr haddr => ⟨?_, ?_⟩⟩
  · rw [← h.rxData]
    exact (regMachine_out_of_read hr (by rw [haddr]; rfl)).2
  · have hread : ((spiMachine none).run { slave := q } is).access none false a.addr 0 =
        some (0xFF, (spiMachine none).run { slave := q } is) := by
      rw [haddr]
      exact congrArg (fun b : Byte => some (b.setWidth 32, _)) hnone
    exact (regMachine_out_of_read hr hread).2

end

end VirtualSoC
