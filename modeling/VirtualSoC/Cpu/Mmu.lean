import Mathlib.Data.List.AList
import VirtualSoC.Cpu.Rv32Defs
import VirtualSoC.Lib.Bits

/-!
# The MMU

`MMU` of `cpu/mmu.h` and `cpu/mmu.cpp`: the Sv32 page-table walk with hardware A/D update, behind
a TLB of 64 entries.

The page-table memory is reached through two callbacks; what they act on is a parameter `β`.
The TLB is a `std::unordered_map`, so which entry `erase(begin())` drops is not determined by the
program: every function that may evict takes the choice as the argument `pick`.
-/

namespace VirtualSoC

/-- What an access is for. -/
inductive AccessType | fetch | load | store
  deriving DecidableEq, Repr

/-- A physical address, or the cause of a page fault. -/
structure MMUResult where
  paddr : Word := 0
  fault : Bool := false
  cause : Word := 0
  deriving DecidableEq, Repr

/-- The bits of a page offset. -/
def pageShift : ℕ := 12
/-- The bytes of a page. -/
def pageSize : Word := 1 <<< 12
/-- The bits of an index into a page table. -/
def vpnBits : ℕ := 10
/-- The mask of such an index. -/
def vpnMask : Word := 0x3FF

/-- The page fault of an access. -/
def faultCause : AccessType → Word
  | .fetch => causeFetchPageFault
  | .load => causeLoadPageFault
  | .store => causeStorePageFault

/-- `{ 0, true, fault_cause(type) }`. -/
def pageFault (type : AccessType) : MMUResult := ⟨0, true, faultCause type⟩

/-! ### Permissions -/

/-- The permission bits of a leaf against an access. -/
def checkPermissions (pte : Word) (type : AccessType) (priv : Priv) (mstatus : Word) : Bool :=
  let userPage := pte &&& pteU ≠ 0
  if priv = prvU ∧ ¬ userPage then false
  else if priv = prvS ∧ userPage ∧ mstatus &&& mstatusSum = 0 then false
  else
    match type with
    | .fetch => if priv = prvS ∧ userPage then false else pte &&& pteX ≠ 0
    | .load =>
      if mstatus &&& mstatusMxr ≠ 0 then pte &&& (pteR ||| pteX) ≠ 0 else pte &&& pteR ≠ 0
    | .store => pte &&& pteW ≠ 0

/-! ### The TLB -/

/-- A cached leaf.  The reserved combination of W without R is never cached. -/
structure TLBEntry where
  ppn : Word
  pteFlags : Word
  isSuperpage : Bool
  readable : pteFlags &&& pteW ≠ 0 → pteFlags &&& pteR ≠ 0

/-- `std::unordered_map<uint32_t, TLBEntry>`, keyed by virtual page number. -/
abbrev Tlb := AList fun _ : Word => TLBEntry

/-- The entries of the TLB. -/
def tlbSize : ℕ := 64

namespace Tlb

/-- `tlb_.erase(tlb_.begin())`, for the entry that `pick` makes the first. -/
def eraseBegin (tlb : Tlb) (pick : Tlb → ℕ) : Tlb :=
  match tlb.keys[pick tlb % tlb.keys.length]? with
  | some k => tlb.erase k
  | none => tlb

/-- Make room, then `tlb_[key] = e`. -/
def fill (tlb : Tlb) (pick : Tlb → ℕ) (key : Word) (e : TLBEntry) : Tlb :=
  (if tlb.keys.length ≥ tlbSize then tlb.eraseBegin pick else tlb).insert key e

end Tlb

/-! ### Translation -/

/-- The page-table memory callbacks. -/
structure PtMem (β : Type*) where
  read : Word → β → Word × β
  write : Word → Word → β → β

/-- The physical address that a leaf maps `vaddr` to. -/
def leafPaddr (ppn : Word) (isSuperpage : Bool) (vaddr : Word) : Word :=
  if isSuperpage then ((ppn &&& ~~~0x3FF) <<< pageShift) ||| (vaddr &&& 0x003FFFFF)
  else (ppn <<< pageShift) ||| (vaddr &&& (pageSize - 1))

/-- The bits that an access requires in its leaf. -/
def requiredBits (type : AccessType) : Word :=
  if type = .store then pteA ||| pteD else pteA

/-- The flags that `walk` caches carry no W without R, like the entry they come from. -/
theorem cachedFlags_readable {pte : Word} (type : AccessType)
    (h : ¬ (pte &&& pteR = 0 ∧ pte &&& pteW ≠ 0)) :
    ((pte ||| requiredBits type) &&& 0xFF) &&& pteW ≠ 0 →
      ((pte ||| requiredBits type) &&& 0xFF) &&& pteR ≠ 0 := by
  rw [Bits.or_and_and_of_disjoint (by cases type <;> decide) (by decide),
    Bits.or_and_and_of_disjoint (by cases type <;> decide) (by decide)]
  exact fun hw hr => h ⟨hr, hw⟩

/-- `vpn[level]`. -/
def vpn (vaddr : Word) (level : ℕ) : Word :=
  (vaddr >>> (pageShift + vpnBits * level)) &&& vpnMask

section

variable {β : Type*} (pm : PtMem β) (pick : Tlb → ℕ)

/-- The `if (is_leaf)` block of `walk`, for the leaf `pte` read at `pteAddr`. -/
def walkLeaf (vaddr : Word) (type : AccessType) (priv : Priv) (mstatus : Word) (level : ℕ)
    (pteAddr pte : Word) (h : ¬ (pte &&& pteR = 0 ∧ pte &&& pteW ≠ 0)) (tlb : Tlb) (b : β) :
    MMUResult × Tlb × β :=
  let ppn := pte >>> ptePpnShift
  let isSuperpage := level = 1
  if !checkPermissions pte type priv mstatus then (pageFault type, tlb, b)
  -- a superpage must be aligned
  else if isSuperpage ∧ ppn &&& vpnMask ≠ 0 then (pageFault type, tlb, b)
  else
    let required := requiredBits type
    let b := if pte &&& required ≠ required then pm.write pteAddr (pte ||| required) b else b
    let e : TLBEntry :=
      ⟨ppn, (pte ||| required) &&& 0xFF, isSuperpage, cachedFlags_readable type h⟩
    (⟨leafPaddr ppn isSuperpage vaddr, false, 0⟩, tlb.fill pick (vaddr >>> pageShift) e, b)

/-- The loop of `walk`, from the table at `a` of the given level. -/
def walkFrom (vaddr : Word) (type : AccessType) (priv : Priv) (mstatus : Word) :
    ℕ → Word → Tlb → β → MMUResult × Tlb × β
  | level, a, tlb, b =>
    let pteAddr := a + vpn vaddr level * 4
    let r := pm.read pteAddr b
    let pte := r.1
    let b := r.2
    if pte &&& pteV = 0 then (pageFault type, tlb, b)
    -- R=0 W=1 is reserved
    else if h : pte &&& pteR = 0 ∧ pte &&& pteW ≠ 0 then (pageFault type, tlb, b)
    else if pte &&& (pteR ||| pteW ||| pteX) ≠ 0 then
      walkLeaf pm pick vaddr type priv mstatus level pteAddr pte h tlb b
    else
      match level with
      | 0 => (pageFault type, tlb, b)
      | level + 1 =>
        walkFrom vaddr type priv mstatus level ((pte >>> ptePpnShift) * pageSize) tlb b

/-- `MMU::walk`. -/
def walk (vaddr : Word) (type : AccessType) (priv : Priv) (satp mstatus : Word) (tlb : Tlb)
    (b : β) : MMUResult × Tlb × β :=
  walkFrom pm pick vaddr type priv mstatus 1 ((satp &&& satpPpnMask) * pageSize) tlb b

/-- The answer of a TLB hit. -/
def TLBEntry.translate (e : TLBEntry) (vaddr : Word) (type : AccessType) (priv : Priv)
    (mstatus : Word) : MMUResult :=
  if checkPermissions e.pteFlags type priv mstatus then
    ⟨leafPaddr e.ppn e.isSuperpage vaddr, false, 0⟩
  else pageFault type

/-- `MMU::translate`. -/
def translate (vaddr : Word) (type : AccessType) (priv : Priv) (satp mstatus : Word) (tlb : Tlb)
    (b : β) : MMUResult × Tlb × β :=
  if satp >>> satpModeShift = satpModeBare then (⟨vaddr, false, 0⟩, tlb, b)
  else
    match tlb.lookup (vaddr >>> pageShift) with
    | some e => (e.translate vaddr type priv mstatus, tlb, b)
    | none => walk pm pick vaddr type priv satp mstatus tlb b

end

/-- `MMU::flush_tlb`. -/
def flushTlb : Tlb := ∅

end VirtualSoC
