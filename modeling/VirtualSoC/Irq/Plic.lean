import VirtualSoC.Bus.Registers
import VirtualSoC.Lib.Machine
import VirtualSoC.Platform.Config
import Mathlib.Logic.Function.Basic

/-!
# The interrupt controller

`PLIC` of `irq/plic.cpp`, with `on_external_irq` connected: the interrupt lines of the peripherals,
the arbitration and the register interface.

The delay argument is left out.  A transport returns `none` where the program copies outside the
payload's buffer, which does not happen when the buffer holds the data length.
-/

namespace VirtualSoC

/-- An interrupt source; source 0 is reserved. -/
abbrev Source := Fin Cfg.irqNumSources

theorem div_four_lt_irqNumSources {addr : Word} (h : addr.toNat < Cfg.irqNumSources * 4) :
    addr.toNat / 4 < Cfg.irqNumSources :=
  Nat.div_lt_of_lt_mul (Nat.mul_comm .. ▸ h)

/-- The interrupt controller for one context. -/
structure Plic where
  priority : Source → Word := fun _ => 0
  pending : Word := 0
  enabled : Word := 0
  threshold : Word := 0
  /-- Sources currently in service. -/
  claimed : Word := 0
  /-- The level last driven on `on_external_irq`, low before the first call. -/
  externalIrq : Bool := false

namespace Plic

/-- The sources in the order of the arbitration loops. -/
def sources : List Source := [1, 2, 3, 4, 5, 6, 7]

/-- `1u << i`. -/
abbrev bit (i : ℕ) : Word := BitVec.twoPow 32 i

variable (p : Plic)

/-- The sources that are pending, enabled and not in service. -/
def actionable : Word := p.pending &&& p.enabled &&& ~~~p.claimed

/-- The external interrupt is driven high if an actionable source beats the threshold. -/
def evaluateIrq : Plic :=
  let bestPrio := sources.foldl (fun bestPrio (i : Source) =>
    if p.actionable &&& bit i ≠ 0 ∧ p.priority i > p.threshold ∧ p.priority i > bestPrio then
      p.priority i
    else bestPrio) 0
  { p with externalIrq := bestPrio > 0 }

/-- `set_pending`: the reserved source and numbers out of range are ignored. -/
def setPending (sourceId : Word) (pending : Bool) : Plic :=
  if sourceId = 0 ∨ sourceId.toNat ≥ Cfg.irqNumSources then p
  else if pending then
    evaluateIrq { p with pending := p.pending ||| bit sourceId.toNat }
  else
    evaluateIrq { p with pending := p.pending &&& ~~~bit sourceId.toNat }

/-- The highest priority wins, the lowest source breaks ties. -/
def claimBest : Source × Plic :=
  let best := sources.foldl (fun (best : Source × Word) (i : Source) =>
    if p.actionable &&& bit i ≠ 0 ∧ p.priority i > p.threshold ∧ p.priority i > best.2 then
      (i, p.priority i)
    else best) (0, 0)
  if best.1 ≠ 0 then
    (best.1, evaluateIrq { p with
      claimed := p.claimed ||| bit best.1
      pending := p.pending &&& ~~~bit best.1 })
  else (best.1, p)

/-! ### The register interface -/

/-- The value read and the next state; `none` where no register is. -/
def access (isWrite : Bool) (addr val : Word) : Option (Word × Plic) :=
  if h : addr.toNat < Cfg.irqNumSources * 4 then
    -- the priority of source 0 is not written, but the output is driven all the same
    let src : Source := ⟨addr.toNat / 4, div_four_lt_irqNumSources h⟩
    if isWrite then
      some (val, evaluateIrq (if src ≠ 0 then
        { p with priority := Function.update p.priority src (val &&& 0x7) } else p))
    else some (p.priority src, p)
  else if addr = 0x1000 then
    if isWrite then some (val, evaluateIrq { p with pending := val })
    else some (p.pending, p)
  else if addr = 0x2000 then
    if isWrite then some (val, evaluateIrq { p with enabled := val })
    else some (p.enabled, p)
  else if addr = 0x200000 then
    if isWrite then some (val, evaluateIrq { p with threshold := val &&& 0x7 })
    else some (p.threshold, p)
  else if addr = 0x200004 then
    if isWrite then
      -- a completion does not ask whether the source was claimed
      some (val, evaluateIrq (if val.toNat < Cfg.irqNumSources then
        { p with claimed := p.claimed &&& ~~~bit val.toNat } else p))
    -- reading the register claims
    else some (BitVec.ofNat 32 p.claimBest.1, p.claimBest.2)
  else none

variable {n : ℕ}

/-- `PLIC::b_transport`. -/
def bTransport (trans : Payload n) : Option (Payload n × Plic) :=
  if trans.dataLength ≠ 4 then some ({ trans with response := .burstError }, p)
  else regTransport p.access p trans

end Plic

end VirtualSoC
