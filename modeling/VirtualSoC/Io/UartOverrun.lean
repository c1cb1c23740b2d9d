import VirtualSoC.Dma.DmaTransfer
import VirtualSoC.Io.UartSpec
import VirtualSoC.Platform.GamingCpuVp

/-!
# The UART behind the bus

The UART copies as many bytes as a transaction names between the payload and a word of four bytes.
`uart_copiesInside_iff` : which transactions of the masters of the platform stay inside that word.
-/

namespace VirtualSoC

open Cfg

instance : TlmDevice Uart where
  transport trans u := u.bTransport trans

/-! ### The masters -/

/-- The lengths of the transactions of the CPU, of the DMA engine and of the SD controller, and the
sizes of their buffers. -/
inductive MasterLength : ℕ → ℕ → Prop
  | cpu {len : ℕ} (h : len = 1 ∨ len = 2 ∨ len = 4) : MasterLength 4 len
  | dma {len : ℕ} (hpos : 1 ≤ len) (hle : len ≤ 256) : MasterLength 256 len
  | sd : MasterLength 512 512

theorem MasterLength.le {n len : ℕ} (h : MasterLength n len) : len ≤ n := by
  cases h with
  | cpu h => omega
  | dma hpos hle => exact hle
  | sd => exact Nat.le_refl _

/-- A read or write of the length of a master. -/
structure Payload.OfMaster {n : ℕ} (trans : Payload n) : Prop where
  command : trans.command = .read ∨ trans.command = .write
  length : MasterLength n trans.dataLength.toNat

theorem readTrans_ofMaster (addr : Word) {bytes : ℕ} (h : bytes = 1 ∨ bytes = 2 ∨ bytes = 4) :
    (readTrans addr bytes).OfMaster where
  command := .inl rfl
  length := .cpu (by rcases h with rfl | rfl | rfl <;> simp [readTrans])

theorem DmaAccess.payload_ofMaster {cmd : TlmCommand} (hc : cmd = .read ∨ cmd = .write)
    (addr : Word) {remaining : Word} (hr : remaining > 0) (buf : DmaBuf) :
    (DmaAccess.payload ⟨cmd, addr, DmaEngine.chunk remaining⟩ buf).OfMaster where
  command := hc
  length := by
    have hpos : 0 < remaining.toNat := hr
    have hlen := DmaEngine.toNat_chunk remaining
    exact .dma (by rw [DmaAccess.payload, hlen]; omega) (by rw [DmaAccess.payload, hlen]; omega)

/-! ### The copies -/

/-- The bus routes the transaction to the UART. -/
def Payload.ToUart {n : ℕ} (trans : Payload n) : Prop :=
  platformBus.decode (trans.address.setWidth 32) = some ⟨uartBase, uartSize, 4⟩

instance {n : ℕ} (trans : Payload n) : Decidable trans.ToUart :=
  inferInstanceAs (Decidable (_ = _))

/-- The register that a transaction for the UART names. -/
def Payload.uartReg {n : ℕ} (trans : Payload n) : Word := trans.address.setWidth 32 - uartBase

/-- The transaction copies at most the four bytes of the UART's word, and no more than its buffer
holds; or it is refused and has no effect. -/
def CopiesInside {n : ℕ} (targets : ℕ → Target Uart) (trans : Payload n) : Prop :=
  ∃ answer targets', platformBus.bTransport targets trans = some (answer, targets') ∧
    (trans.dataLength.toNat ≤ 4 ∨
      answer.response ≠ .ok ∧ answer.data = trans.data ∧ targets' = targets)

namespace Uart

variable {u : Uart} {n : ℕ} {trans : Payload n}

theorem access_eq_none_iff {isWrite : Bool} {reg val : Word} :
    u.access isWrite reg val = none ↔ 7 < reg.toNat := by
  constructor
  · intro h
    unfold access at h
    repeat' split at h
    all_goals first
      | exact absurd h (Option.some_ne_none _)
      | simp only [regRbrThr, regIer, regIirFcr, regLcr, regMcr, regLsr, regMsr, regScr] at *
        bv_omega
  · intro h
    have hne (k : Word) (hk : k.toNat ≤ 7) : reg ≠ k := by
      rintro rfl
      omega
    rw [access, if_neg (hne regRbrThr (by decide)), if_neg (hne regIer (by decide)),
      if_neg (hne regIirFcr (by decide)), if_neg (hne regLcr (by decide)),
      if_neg (hne regMcr (by decide)), if_neg (hne regLsr (by decide)),
      if_neg (hne regMsr (by decide)), if_neg (hne regScr (by decide))]

/-- A write of more than four bytes overruns the word, at every register and beyond them. -/
theorem bTransport_write_long (hw : trans.command = .write) (h4 : 4 < trans.dataLength.toNat) :
    u.bTransport trans = none := by
  rw [bTransport, if_pos hw, Payload.getVal, Buffer.copy_eq_none_iff.2 (.inr (by omega))]
  rfl

/-- A read of more than four bytes overruns it at the registers. -/
theorem bTransport_read_long (hr : trans.command ≠ .write) (h4 : 4 < trans.dataLength.toNat)
    (hreg : (trans.address.setWidth 32).toNat ≤ 7) : u.bTransport trans = none := by
  cases hacc : u.access false (trans.address.setWidth 32) 0 with
  | none => exact absurd (access_eq_none_iff.1 hacc) (Nat.not_lt.2 hreg)
  | some x =>
    rw [bTransport, if_neg hr, hacc]
    dsimp only
    have hsrc : 4 < 0 + trans.dataLength.toNat := by omega
    rw [Payload.setVal, Buffer.copy_eq_none_iff.2 (.inl hsrc)]
    rfl

theorem bTransport_read_refused (hr : trans.command ≠ .write)
    (hreg : 7 < (trans.address.setWidth 32).toNat) :
    u.bTransport trans = some ({ trans with response := .addressError }, u) := by
  rw [bTransport, if_neg hr, access_eq_none_iff.2 hreg]

end Uart

/-! ### On the platform -/

section

variable {n : ℕ} {trans : Payload n} {targets : ℕ → Target Uart} {u : Uart}

/-- The transaction as it reaches the UART. -/
def Payload.atUart (trans : Payload n) : Payload n :=
  { trans with address := trans.uartReg.setWidth 64 }

theorem Payload.reg_atUart : trans.atUart.address.setWidth 32 = trans.uartReg :=
  BitVec.setWidth_setWidth_of_le _ (by decide)

/-- What the bus does with a transaction for the UART. -/
theorem bTransport_toUart (ht : targets 4 = .device u) (hu : trans.ToUart) :
    platformBus.bTransport targets trans =
      (u.bTransport trans.atUart).map fun x =>
        ({ x.1 with address := (trans.address.setWidth 32 : Word).setWidth 64 },
          Function.update targets 4 (.device x.2)) := by
  rw [TlmBus.bTransport, hu]
  exact TlmBus.forward_device ht trans

/-- A transaction that the UART copies outside its word. -/
theorem not_copiesInside (ht : targets 4 = .device u) (hu : trans.ToUart)
    (h : u.bTransport trans.atUart = none) : ¬ CopiesInside targets trans := by
  rintro ⟨answer, targets', hb, -⟩
  rw [bTransport_toUart ht hu, h] at hb
  cases hb

/-- A transaction of a master for the UART stays inside the UART's word iff it has at most four
bytes, or is a read beyond the registers. -/
theorem uart_copiesInside_iff (hm : trans.OfMaster) (hu : trans.ToUart)
    (ht : targets 4 = .device u) :
    CopiesInside targets trans ↔
      trans.dataLength.toNat ≤ 4 ∨ trans.command = .read ∧ 7 < trans.uartReg.toNat := by
  by_cases h4 : trans.dataLength.toNat ≤ 4
  · refine iff_of_true ?_ (.inl h4)
    obtain ⟨x, hx⟩ := u.exists_bTransport trans.atUart h4 hm.length.le
    exact ⟨_, _, by rw [bTransport_toUart ht hu, hx]; rfl, .inl h4⟩
  have hlong : 4 < trans.atUart.dataLength.toNat := Nat.lt_of_not_le h4
  rw [or_iff_right h4]
  by_cases hread : trans.command = .read
  · have hr : trans.atUart.command ≠ .write := fun hw =>
      TlmCommand.noConfusion (hread.symm.trans hw)
    by_cases hreg : 7 < trans.uartReg.toNat
    · refine iff_of_true ?_ ⟨hread, hreg⟩
      have hb := Uart.bTransport_read_refused (u := u) hr (trans.reg_atUart ▸ hreg)
      refine ⟨_, _, (bTransport_toUart ht hu).trans (congrArg _ hb),
        .inr ⟨TlmResponse.noConfusion, rfl, ?_⟩⟩
      exact Function.update_eq_self_iff.2 ht.symm
    · refine iff_of_false (not_copiesInside ht hu ?_) fun h => hreg h.2
      exact Uart.bTransport_read_long hr hlong (trans.reg_atUart ▸ Nat.le_of_not_lt hreg)
  · refine iff_of_false (not_copiesInside ht hu ?_) fun h => hread h.1
    exact Uart.bTransport_write_long (hm.command.resolve_left hread) hlong

/-- A read of a register by the CPU. -/
theorem uart_copiesInside_cpu :
    CopiesInside (fun _ => .device {}) (readTrans (uartBase + 5) 1) :=
  (uart_copiesInside_iff (u := {}) (readTrans_ofMaster _ (.inl rfl)) (by decide) rfl).2
    (.inl (by decide))

/-- A DMA burst of 256 bytes to the transmit register. -/
theorem uart_overrun :
    let trans := DmaAccess.payload ⟨.write, uartBase, DmaEngine.chunk 256⟩ (.replicate 256 0)
    trans.OfMaster ∧ trans.ToUart ∧
      ¬ CopiesInside (fun _ => .device ({} : Uart)) trans := by
  refine ⟨DmaAccess.payload_ofMaster (.inr rfl) _ (by decide) _, by decide, ?_⟩
  exact not_copiesInside rfl (by decide) (Uart.bTransport_write_long rfl (by decide))

end

end VirtualSoC
