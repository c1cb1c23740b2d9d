import VirtualSoC.Io.Uart

/-!
# The UART over whole runs

`uart_receive` : from reset, under any pushes and register accesses of 1 to 4 bytes, the reads of
the receive buffer return the accepted bytes in order, and the interrupt line, IIR and LSR agree.
-/

namespace VirtualSoC

namespace Payload

variable {n : ℕ} {trans : Payload n}

/-- Copying a part of a byte's word, from its first byte on, copies the byte. -/
theorem copy_byte (b : Byte) {k : ℕ} (hpos : 0 < k) (hk : k ≤ 4) :
    Buffer.copy zeroBuf 0 (Bytes.toLE (b.setWidth 32 : Word) 4) 0 k =
      some (Bytes.toLE (b.setWidth 32 : Word) 4) := by
  obtain ⟨d, hd⟩ := Buffer.exists_copy zeroBuf (Bytes.toLE (b.setWidth 32 : Word) 4) (i := 0)
    (j := 0) (k := k) (by omega) (by omega)
  rw [hd]
  refine congrArg some (Vector.ext fun p hp => Option.some.inj ?_)
  rw [← Vector.getElem?_eq_getElem, ← Vector.getElem?_eq_getElem, Buffer.getElem?_of_copy hd,
    Nat.zero_add, Nat.sub_zero, Nat.zero_add]
  split
  next => rfl
  next h =>
    -- the bytes that are not copied are zero
    rw [Vector.getElem?_eq_getElem hp, Vector.getElem?_eq_getElem hp]
    refine congrArg some (BitVec.eq_of_getLsbD_eq fun i hi => ?_)
    simp only [zeroBuf, Vector.getElem_replicate, Bytes.toLE, Vector.getElem_ofFn,
      BitVec.getLsbD_setWidth, BitVec.getLsbD_ushiftRight]
    rw [BitVec.getLsbD_of_ge b (8 * p + i) (by omega), Bool.and_false, Bool.and_false]
    exact BitVec.getLsbD_zero

theorem getVal_of_setVal {b : Byte} {t : Payload n} (h : trans.setVal (b.setWidth 32) = some t)
    (hpos : 0 < trans.dataLength.toNat) (h4 : trans.dataLength.toNat ≤ 4) :
    t.getVal = some (b.setWidth 32) := by
  obtain ⟨data, hcopy, rfl⟩ := Option.map_eq_some_iff.1 h
  rw [getVal, Buffer.copy_copy hcopy, copy_byte b hpos h4, Option.map_some,
    Bytes.ofLE_toLE _ (by decide)]

end Payload

namespace Uart

variable {u u' : Uart}

/-! ### One access -/

@[simp] theorem rxFifo_updateIrq (u : Uart) : u.updateIrq.rxFifo = u.rxFifo := rfl

/-- The line shows what `update_irq` would drive. -/
def LineDriven (u : Uart) : Prop := u.updateIrq.irq = u.irq

theorem lineDriven_updateIrq (u : Uart) : u.updateIrq.LineDriven := rfl

/-- An access takes a byte from the queue by reading the receive buffer, and not otherwise. -/
theorem rxFifo_of_access {isWrite : Bool} {reg val v : Word}
    (h : u.access isWrite reg val = some (v, u')) :
    u'.rxFifo = if isWrite = false ∧ reg = regRbrThr then u.rxFifo.tail else u.rxFifo := by
  unfold access at h
  by_cases hrbr : reg = regRbrThr
  · rw [if_pos hrbr] at h
    cases isWrite with
    | true =>
      cases h
      rw [if_neg (by simp)]
      rfl
    | false =>
      rw [if_pos ⟨rfl, hrbr⟩]
      cases hq : u.rxFifo with
      | nil =>
        rw [hq] at h
        cases h
        exact hq
      | cons byte rest =>
        rw [hq] at h
        cases h
        rfl
  · rw [if_neg hrbr] at h
    rw [if_neg fun h => hrbr h.2]
    repeat' split at h
    all_goals cases h <;> rfl

/-- An access leaves the line as `update_irq` drives it. -/
theorem lineDriven_of_access {isWrite : Bool} {reg val v : Word}
    (h : u.access isWrite reg val = some (v, u')) (hu : u.LineDriven) : u'.LineDriven := by
  unfold access at h
  repeat' split at h
  all_goals cases h <;> first | exact lineDriven_updateIrq _ | exact hu

/-- A transport either finds no register, or accesses one. -/
theorem exists_access_of_bTransport {n : ℕ} {trans t : Payload n}
    (h : u.bTransport trans = some (t, u')) :
    u' = u ∨ ∃ val v, u.access (trans.command = .write) (trans.address.setWidth 32) val =
      some (v, u') := by
  unfold bTransport at h
  split at h
  next hw =>
    obtain ⟨val, -, hval⟩ := Option.map_eq_some_iff.1 h
    split at hval
    · cases hval
      exact .inl rfl
    next v w hacc =>
      cases hval
      rw [decide_eq_true hw]
      exact .inr ⟨val, v, hacc⟩
  next hw =>
    split at h
    · cases h
      exact .inl rfl
    next v w hacc =>
      obtain ⟨t', -, ht⟩ := Option.map_eq_some_iff.1 h
      cases ht
      rw [decide_eq_false hw]
      exact .inr ⟨0, v, hacc⟩

end Uart

/-- A read of a register. -/
structure UartAccess.Reads (a : UartAccess) (reg : Word) : Prop where
  command : a.payload.command ≠ .write
  address : a.payload.address.setWidth 32 = reg

instance (a : UartAccess) (reg : Word) : Decidable (a.Reads reg) :=
  decidable_of_iff (a.payload.command ≠ .write ∧ a.payload.address.setWidth 32 = reg)
    ⟨fun h => ⟨h.1, h.2⟩, fun h => ⟨h.1, h.2⟩⟩

namespace Uart

variable {u u' : Uart}

theorem exists_bTransport_read {a : UartAccess} {reg : Word} {b : Byte} (hr : a.Reads reg)
    (hacc : u.access false reg 0 = some (b.setWidth 32, u')) :
    ∃ t, u.bTransport a.payload = some (t, u') ∧ t.response = .ok ∧
      t.getVal = some (b.setWidth 32) := by
  obtain ⟨t, ht⟩ := { a.payload with response := .ok }.exists_setVal (b.setWidth 32) a.le_four
    a.fits
  refine ⟨t, ?_, ?_, Payload.getVal_of_setVal ht a.pos a.le_four⟩
  · rw [bTransport, if_neg hr.command, hr.address, hacc]
    dsimp only
    rw [ht]
    rfl
  · obtain ⟨data, -, rfl⟩ := Option.map_eq_some_iff.1 ht
    rfl

/-! ### The registers and the line -/

/-- The line, IIR and LSR agree with the queue. -/
structure Agrees (u : Uart) : Prop where
  /-- The line is high iff IIR reports an interrupt, and received data has priority. -/
  iir : ∀ a : UartAccess, a.Reads regIirFcr → ∃ t v, u.bTransport a.payload = some (t, u) ∧
    t.getVal = some v ∧ (u.irq = true ↔ v.getLsbD 0 = false) ∧
    (u.ier &&& ierRxAvail ≠ 0 → u.rxFifo ≠ [] →
      v = (iirRxAvail ||| iirFifoEn).setWidth 32)
  /-- LSR reports data iff the queue holds some. -/
  lsr : ∀ a : UartAccess, a.Reads regLsr → ∃ t v, u.bTransport a.payload = some (t, u) ∧
    t.getVal = some v ∧ (v.getLsbD 0 = true ↔ u.rxFifo ≠ [])

/-- `update_irq` and IIR are two renditions of one condition. -/
theorem irq_updateIrq_iff (u : Uart) :
    u.updateIrq.irq = true ↔ (u.iir.setWidth 32 : Word).getLsbD 0 = false := by
  unfold updateIrq iir
  dsimp only
  by_cases hrx : u.ier &&& ierRxAvail ≠ 0 ∧ ¬ u.rxFifo.isEmpty
  · rw [if_pos hrx, if_pos hrx, ite_self]
    exact iff_of_true rfl rfl
  · rw [if_neg hrx, if_neg hrx]
    by_cases htx : u.ier &&& ierTxEmpty ≠ 0 ∧ u.txEmpty
    · rw [if_pos htx, if_pos htx]
      exact iff_of_true rfl rfl
    · rw [if_neg htx, if_neg htx]
      exact iff_of_false Bool.noConfusion Bool.noConfusion

theorem isEmpty_eq_false_iff (u : Uart) : (¬ u.rxFifo.isEmpty) ↔ u.rxFifo ≠ [] := by
  rw [List.isEmpty_iff]

theorem LineDriven.agrees (h : u.LineDriven) : u.Agrees where
  iir a ha := by
    obtain ⟨t, hbt, -, hv⟩ := exists_bTransport_read (b := u.iir) ha rfl
    refine ⟨t, _, hbt, hv, ?_, fun hier hq => ?_⟩
    · rw [← h]
      exact u.irq_updateIrq_iff
    · rw [Uart.iir, if_pos ⟨hier, u.isEmpty_eq_false_iff.2 hq⟩]
  lsr a ha := by
    obtain ⟨t, hbt, -, hv⟩ := exists_bTransport_read (b := u.lsr) ha rfl
    refine ⟨t, _, hbt, hv, ?_⟩
    rw [← u.isEmpty_eq_false_iff, Uart.lsr]
    by_cases hq : ¬ u.rxFifo.isEmpty
    · rw [if_pos hq]
      exact iff_of_true rfl hq
    · rw [if_neg hq]
      exact iff_of_false Bool.noConfusion hq

end Uart

/-! ### Runs -/

/-- The byte that a push adds to the queue. -/
def UartInput.accepted (u : Uart) : UartInput → Option Byte
  | .pushRx byte => if u.rxFifo.length = Uart.fifoSize then none else some byte
  | .transport _ => none

/-- The value that a read of the receive buffer returns when the queue holds a byte. -/
def UartInput.received (u : Uart) : UartInput → Option Word
  | .pushRx _ => none
  | .transport a =>
    if a.Reads Uart.regRbrThr ∧ u.rxFifo ≠ [] then
      (u.bTransport a.payload).bind fun x => x.1.getVal
    else none

namespace Uart

variable {u : Uart}

theorem next_transport (u : Uart) (a : UartAccess) :
    ∃ t, u.bTransport a.payload = some (t, uartMachine.next u (.transport a)) :=
  ⟨_, (Option.some_get (u.isSome_bTransport a)).symm⟩

theorem next_of_bTransport {u' : Uart} {a : UartAccess} {t : Payload a.n}
    (h : u.bTransport a.payload = some (t, u')) : uartMachine.next u (.transport a) = u' := by
  obtain ⟨t', ht'⟩ := u.next_transport a
  cases h.symm.trans ht'
  rfl

theorem rxFifo_next_of_not_reads {a : UartAccess} (h : ¬ a.Reads regRbrThr) :
    (uartMachine.next u (.transport a)).rxFifo = u.rxFifo := by
  obtain ⟨t, ht⟩ := u.next_transport a
  rcases exists_access_of_bTransport ht with heq | ⟨val, v, hacc⟩
  · rw [heq]
  · rw [rxFifo_of_access hacc, if_neg fun hr => h ⟨of_decide_eq_false hr.1, hr.2⟩]

theorem rxFifo_pushRx (u : Uart) (byte : Byte) (h : u.rxFifo.length ≤ fifoSize) :
    (u.pushRx byte).rxFifo =
      if u.rxFifo.length = fifoSize then u.rxFifo else u.rxFifo ++ [byte] := by
  rw [pushRx, rxFifo_updateIrq]
  by_cases hfull : u.rxFifo.length = fifoSize
  · rw [if_pos hfull, if_neg (by omega)]
  · rw [if_neg hfull, if_pos (by omega)]

/-- What every step keeps. -/
structure Valid (u : Uart) : Prop where
  length_le : u.rxFifo.length ≤ fifoSize
  line : u.LineDriven

theorem Valid.next (h : u.Valid) (i : UartInput) : (uartMachine.next u i).Valid := by
  cases i with
  | pushRx byte =>
    refine ⟨?_, lineDriven_updateIrq _⟩
    change (u.pushRx byte).rxFifo.length ≤ fifoSize
    have hle := h.length_le
    rw [rxFifo_pushRx u byte hle]
    split
    · exact hle
    · rw [List.length_append, List.length_singleton]
      omega
  | transport a =>
    obtain ⟨t, ht⟩ := u.next_transport a
    rcases exists_access_of_bTransport ht with heq | ⟨val, v, hacc⟩
    · rw [heq]
      exact h
    · refine ⟨?_, lineDriven_of_access hacc h.line⟩
      have hle := h.length_le
      rw [rxFifo_of_access hacc]
      split
      · rw [List.length_tail]
        omega
      · exact hle

/-- A step moves the bytes that it accepts into the queue, and out of it those that are read. -/
theorem step_conserves (h : u.Valid) (i : UartInput) :
    (u.rxFifo ++ (i.accepted u).toList).map (BitVec.setWidth 32) =
      (i.received u).toList ++ (uartMachine.next u i).rxFifo.map (BitVec.setWidth 32) := by
  cases i with
  | pushRx byte =>
    change _ = [] ++ (u.pushRx byte).rxFifo.map _
    rw [rxFifo_pushRx u byte h.length_le, UartInput.accepted, List.nil_append]
    split
    · rw [Option.toList_none, List.append_nil]
    · rw [Option.toList_some]
  | transport a =>
    rw [UartInput.accepted, Option.toList_none, List.append_nil]
    by_cases hread : a.Reads regRbrThr
    · cases hq : u.rxFifo with
      | nil =>
        have hacc : u.access false regRbrThr 0 = some ((0 : Byte).setWidth 32, u.updateIrq) := by
          rw [access, if_pos rfl, if_neg Bool.false_ne_true, hq]
          rfl
        obtain ⟨t, ht, -, -⟩ := exists_bTransport_read hread hacc
        rw [next_of_bTransport ht, rxFifo_updateIrq, hq, UartInput.received,
          if_neg fun h => h.2 hq]
        rfl
      | cons byte rest =>
        have hacc : u.access false regRbrThr 0 =
            some (byte.setWidth 32, updateIrq { u with rxFifo := rest }) := by
          rw [access, if_pos rfl, if_neg Bool.false_ne_true, hq]
        obtain ⟨t, ht, -, hval⟩ := exists_bTransport_read hread hacc
        have hne : u.rxFifo ≠ [] := hq ▸ List.cons_ne_nil byte rest
        rw [next_of_bTransport ht, rxFifo_updateIrq, UartInput.received, if_pos ⟨hread, hne⟩, ht,
          Option.bind_some, hval]
        rfl
    · rw [UartInput.received, if_neg fun h => hread h.1, rxFifo_next_of_not_reads hread]
      rfl

end Uart

/-- From reset, the accepted bytes are those read, in order, and those still queued. -/
theorem Uart.run_conserves (is : List UartInput) :
    (uartMachine.run {} is).Valid ∧
      (uartMachine.log (fun u i => i.accepted u) {} is).map (BitVec.setWidth 32) =
        uartMachine.log (fun u i => i.received u) {} is ++
          (uartMachine.run {} is).rxFifo.map (BitVec.setWidth 32) := by
  induction is using List.reverseRecOn with
  | nil => exact ⟨⟨Nat.zero_le _, rfl⟩, rfl⟩
  | append_singleton is i ih =>
    obtain ⟨hvalid, hlog⟩ := ih
    have hstep := Uart.step_conserves hvalid i
    rw [List.map_append] at hstep
    rw [Machine.run_snoc, Machine.log_snoc, Machine.log_snoc, List.map_append, hlog,
      List.append_assoc, hstep, List.append_assoc]
    exact ⟨hvalid.next i, rfl⟩

/-- From reset, under any pushes and register accesses: the reads of the receive buffer return the
accepted bytes in order, each once; a push is dropped iff 16 bytes are queued, never more are; and
the interrupt line, IIR and LSR agree. -/
theorem uart_receive (is : List UartInput) :
    let u := uartMachine.run {} is
    uartMachine.log (fun u i => i.received u) {} is ++ u.rxFifo.map (BitVec.setWidth 32) =
        (uartMachine.log (fun u i => i.accepted u) {} is).map (BitVec.setWidth 32) ∧
      u.rxFifo.length ≤ 16 ∧
      (∀ byte, (uartMachine.next u (.pushRx byte)).rxFifo =
        if u.rxFifo.length = 16 then u.rxFifo else u.rxFifo ++ [byte]) ∧
      u.Agrees := by
  obtain ⟨hvalid, hlog⟩ := Uart.run_conserves is
  exact ⟨hlog.symm, hvalid.length_le, fun byte => Uart.rxFifo_pushRx _ byte hvalid.length_le,
    hvalid.line.agrees⟩

end VirtualSoC
