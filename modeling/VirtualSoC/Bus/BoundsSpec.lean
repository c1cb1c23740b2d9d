import VirtualSoC.Bus.Memory

/-!
# The bounds checks of the memory targets

`Memory` and `BootROM` compare the 32-bit sum of the address and the length with their size.
`boundsExact_iff` : the check is the one on natural numbers except where the sum wraps around to a
value that is not above the size.
-/

namespace VirtualSoC

namespace Payload

variable {n : ℕ} (trans : Payload n)

/-- The local address of a transaction, as the targets take it. -/
def localIndex : ℕ := (trans.address.setWidth 32).toNat

/-- The first index after a transaction. -/
def endIndex : ℕ := trans.localIndex + trans.dataLength.toNat

/-- The sum of the address and the length wraps around to a value inside `size` bytes. -/
def WrapsInside (size : Word) : Prop :=
  2 ^ 32 ≤ trans.endIndex ∧ trans.endIndex - 2 ^ 32 ≤ size.toNat

instance (size : Word) : Decidable (trans.WrapsInside size) :=
  inferInstanceAs (Decidable (_ ∧ _))

theorem check_iff (size : Word) :
    trans.address.setWidth 32 + trans.dataLength > size ↔
      size.toNat < trans.endIndex ∧ ¬ trans.WrapsInside size := by
  have haddr := (trans.address.setWidth 32).isLt
  have hlen := trans.dataLength.isLt
  have hsize := size.isLt
  rw [gt_iff_lt, BitVec.lt_def, BitVec.toNat_add, WrapsInside, endIndex, localIndex]
  omega

end Payload

/-- `answer` is what an exact bounds check lets the target `m`, whose bytes are `mem`, answer to
`trans`. -/
structure BoundsExact {τ : Type*} {size n : ℕ} (mem : Vector Byte size) (m : τ)
    (trans : Payload n) (answer : Option (Payload n × τ)) : Prop where
  /-- No index outside the buffers is touched. -/
  defined : answer.isSome
  /-- A transaction past the end is refused, and changes nothing. -/
  refused : size < trans.endIndex → answer = some ({ trans with response := .addressError }, m)
  /-- A read inside is served completely. -/
  served : trans.endIndex ≤ size → trans.command = .read →
    ∃ trans', answer = some (trans', m) ∧ trans'.response = .ok ∧
      ∀ i, trans'.data[i]? =
        if i < trans.dataLength.toNat then mem[trans.localIndex + i]? else trans.data[i]?

namespace BoundsExact

variable {τ : Type*} {size n : ℕ} {mem : Vector Byte size} {m : τ} {trans : Payload n}
  {answer : Option (Payload n × τ)}

theorem of_refused (h : size < trans.endIndex)
    (ha : answer = some ({ trans with response := .addressError }, m)) :
    BoundsExact mem m trans answer where
  defined := by rw [ha]; rfl
  refused _ := ha
  served hle := absurd h (Nat.not_lt.2 hle)

theorem served_of_copy {data : Vector Byte n}
    (h : Buffer.copy trans.data 0 mem trans.localIndex trans.dataLength.toNat = some data) (i : ℕ) :
    data[i]? =
      if i < trans.dataLength.toNat then mem[trans.localIndex + i]? else trans.data[i]? := by
  rw [Buffer.getElem?_of_copy h]
  simp only [Nat.zero_le, true_and, Nat.zero_add, Nat.sub_zero]

theorem of_read (hfit : trans.dataLength.toNat ≤ n) (h : trans.endIndex ≤ size)
    (ha : answer =
      (Buffer.copy trans.data 0 mem trans.localIndex trans.dataLength.toNat).map fun data =>
        ({ trans with data, response := .ok }, m)) :
    BoundsExact mem m trans answer := by
  obtain ⟨data, hdata⟩ := Buffer.exists_copy trans.data mem (i := 0) (j := trans.localIndex)
    (k := trans.dataLength.toNat) (by omega) h
  rw [hdata] at ha
  exact {
    defined := by rw [ha]; rfl
    refused := fun hlt => absurd hlt (Nat.not_lt.2 h)
    served := fun _ _ => ⟨_, ha, rfl, served_of_copy hdata⟩ }

/-- Any answer to another command inside the target. -/
theorem of_ne_read (h : trans.endIndex ≤ size) (hc : trans.command ≠ .read)
    (ha : answer.isSome) : BoundsExact mem m trans answer where
  defined := ha
  refused hlt := absurd hlt (Nat.not_lt.2 h)
  served _ hr := absurd hr hc

theorem copy_of_endIndex (h : size < trans.endIndex) :
    Buffer.copy trans.data 0 mem trans.localIndex trans.dataLength.toNat = none ∧
      Buffer.copy mem trans.localIndex trans.data 0 trans.dataLength.toNat = none :=
  ⟨Buffer.copy_eq_none_iff.2 (.inl h), Buffer.copy_eq_none_iff.2 (.inr h)⟩

end BoundsExact

section

variable {τ : Type*} {n : ℕ} {size : Word} {mem : Vector Byte size.toNat} {m : τ}
  {trans : Payload n} {answer : Option (Payload n × τ)}

/-- A target behind the 32-bit check: the check is exact unless the sum wraps around. -/
theorem boundsExact_iff_of_check (hfit : trans.dataLength.toNat ≤ n)
    (hcheck : trans.address.setWidth 32 + trans.dataLength > size →
      answer = some ({ trans with response := .addressError }, m))
    (hread : ¬ trans.address.setWidth 32 + trans.dataLength > size → trans.command = .read →
      answer = (Buffer.copy trans.data 0 mem trans.localIndex trans.dataLength.toNat).map
        fun data => ({ trans with data, response := .ok }, m))
    (hinside : ¬ trans.address.setWidth 32 + trans.dataLength > size → trans.command ≠ .read →
      trans.endIndex ≤ size.toNat → answer.isSome)
    (hpast : ¬ trans.address.setWidth 32 + trans.dataLength > size → trans.command ≠ .read →
      size.toNat < trans.endIndex → ∀ x, answer = some x → x.1.response ≠ .addressError) :
    BoundsExact mem m trans answer ↔ ¬ trans.WrapsInside size := by
  by_cases h : trans.address.setWidth 32 + trans.dataLength > size
  · obtain ⟨hend, hwrap⟩ := (trans.check_iff size).1 h
    exact iff_of_true (.of_refused hend (hcheck h)) hwrap
  by_cases hend : size.toNat < trans.endIndex
  · -- the sum has wrapped around, and the transaction is not refused
    have hwrap : trans.WrapsInside size := by
      by_contra hwrap
      exact h ((trans.check_iff size).2 ⟨hend, hwrap⟩)
    refine iff_of_false (fun hb => ?_) (not_not_intro hwrap)
    by_cases hc : trans.command = .read
    · have hanswer := hb.refused hend
      rw [hread h hc, (BoundsExact.copy_of_endIndex hend).1] at hanswer
      cases hanswer
    · exact hpast h hc hend _ (hb.refused hend) rfl
  · have hle := Nat.le_of_not_lt hend
    have hwrap : ¬ trans.WrapsInside size := fun hwrap =>
      hend (Nat.lt_of_lt_of_le size.isLt hwrap.1)
    refine iff_of_true ?_ hwrap
    by_cases hc : trans.command = .read
    · exact .of_read hfit hle (hread h hc)
    · exact .of_ne_read hle hc (hinside h hc hle)

end

/-! ### The two targets -/

variable {n : ℕ} {trans : Payload n}

theorem Memory.boundsExact_iff (m : Memory) (hfit : trans.dataLength.toNat ≤ n) :
    BoundsExact m.mem m trans (m.bTransport trans) ↔ ¬ trans.WrapsInside m.size := by
  refine boundsExact_iff_of_check hfit (fun h => ?_) (fun h hc => ?_) (fun h hc hle => ?_)
    fun h hc hlt x hx => ?_
  · rw [bTransport, if_pos h]
  · rw [bTransport, if_neg h, hc]
    exact (Option.map_eq_bind ..).symm
  · rw [bTransport, if_neg h]
    cases hcmd : trans.command with
    | read => exact absurd hcmd hc
    | write =>
      obtain ⟨mem, hmem⟩ := Buffer.exists_copy m.mem trans.data (i := trans.localIndex) (j := 0)
        (k := trans.dataLength.toNat) hle (by omega)
      exact Option.isSome_iff_exists.2 ⟨_, Option.bind_eq_some_iff.2 ⟨mem, hmem, rfl⟩⟩
    | ignore => rfl
  · rw [bTransport, if_neg h] at hx
    cases hcmd : trans.command with
    | read => exact absurd hcmd hc
    | write =>
      rw [hcmd] at hx
      obtain ⟨mem, hmem, -⟩ := Option.bind_eq_some_iff.1 hx
      cases hmem.symm.trans (BoundsExact.copy_of_endIndex hlt).2
    | ignore =>
      rw [hcmd] at hx
      cases hx
      exact TlmResponse.noConfusion

theorem BootRom.boundsExact_iff (m : BootRom) (hfit : trans.dataLength.toNat ≤ n) :
    BoundsExact m.mem m trans (m.bTransport trans) ↔ ¬ trans.WrapsInside m.size := by
  refine boundsExact_iff_of_check hfit (fun h => ?_) (fun h hc => ?_) (fun h hc hle => ?_)
    fun h hc hlt x hx => ?_
  · rw [bTransport, if_pos h]
  · rw [bTransport, if_neg h, hc]
    exact (Option.map_eq_bind ..).symm
  · rw [bTransport, if_neg h]
    cases hcmd : trans.command with
    | read => exact absurd hcmd hc
    | write => rfl
    | ignore => rfl
  · rw [bTransport, if_neg h] at hx
    cases hcmd : trans.command with
    | read => exact absurd hcmd hc
    | write =>
      rw [hcmd] at hx
      cases hx
      exact TlmResponse.noConfusion
    | ignore =>
      rw [hcmd] at hx
      cases hx
      exact TlmResponse.noConfusion

/-- The bounds checks are exact but where the 32-bit sum wraps around to a value inside. -/
theorem memoryTargets_boundsExact_iff (hfit : trans.dataLength.toNat ≤ n) :
    (∀ m : Memory, BoundsExact m.mem m trans (m.bTransport trans) ↔
        ¬ trans.WrapsInside m.size) ∧
      ∀ m : BootRom, BoundsExact m.mem m trans (m.bTransport trans) ↔
        ¬ trans.WrapsInside m.size :=
  ⟨fun m => m.boundsExact_iff hfit, fun m => m.boundsExact_iff hfit⟩

/-- A read of the last byte of 4 KiB. -/
theorem memoryTargets_boundsExact_last :
    let trans : Payload 4 :=
      { command := .read, address := 0xFFF, data := zeroBuf, dataLength := 1 }
    BoundsExact (Memory.new 0x1000).mem (Memory.new 0x1000) trans
      ((Memory.new 0x1000).bTransport trans) :=
  ((memoryTargets_boundsExact_iff (by decide)).1 _).2 (by decide)

/-- Two bytes from the last address on: the sum of 0xFFFFFFFF and 2 is 1. -/
theorem memoryTargets_wrap :
    let trans : Payload 4 :=
      { command := .read, address := 0xFFFFFFFF, data := zeroBuf, dataLength := 2 }
    let rom : BootRom := ⟨0x1000, .replicate _ 0⟩
    ¬ BoundsExact (Memory.new 0x1000).mem (Memory.new 0x1000) trans
        ((Memory.new 0x1000).bTransport trans) ∧
      ¬ BoundsExact rom.mem rom trans (rom.bTransport trans) :=
  ⟨fun h => (Memory.boundsExact_iff _ (by decide)).1 h (by decide),
    fun h => (BootRom.boundsExact_iff _ (by decide)).1 h (by decide)⟩

end VirtualSoC
