import Mathlib.Data.BitVec

/-!
# Sv32 address translation

What the privileged manual prescribes for the translation of a virtual address in Sv32 mode.

* `Pte` : page-table entries and their fields;
* `walk` : the leaf that two levels of page tables have for a virtual address;
* `translate` : the leaf after the permission and alignment checks, `none` for a page fault;
* `Leaf.paddr` : the 34-bit physical address, and `Pte.marked` the entry with A and D set.
-/

namespace VirtualSoC

namespace Isa

namespace Sv32

/-- Physical addresses have 34 bits. -/
abbrev PAddr := BitVec 34

/-- Kinds of accesses. -/
inductive Access | fetch | load | store
  deriving DecidableEq, Repr

/-- Exception code of the page fault for an access. -/
def Access.cause : Access → BitVec 32
  | .fetch => 12
  | .load => 13
  | .store => 15

/-- The modes in which addresses are translated. -/
inductive Mode | user | supervisor
  deriving DecidableEq, Repr

/-- The mode of an access, and the `mstatus` bits that modify permissions. -/
structure Context where
  mode : Mode
  sum : Bool
  mxr : Bool
  deriving DecidableEq, Repr

/-! ### Page-table entries -/

/-- A page-table entry. -/
abbrev Pte := BitVec 32

namespace Pte

variable (p : Pte)

/-- Valid. -/
def v : Bool := p.getLsbD 0
/-- Readable. -/
def r : Bool := p.getLsbD 1
/-- Writable. -/
def w : Bool := p.getLsbD 2
/-- Executable. -/
def x : Bool := p.getLsbD 3
/-- A page of U-mode. -/
def u : Bool := p.getLsbD 4

/-- The physical page number. -/
def ppn : BitVec 22 := p.extractLsb' 10 22

/-- The low part of the physical page number. -/
def ppn0 : BitVec 10 := p.extractLsb' 10 10

/-- The high part of the physical page number. -/
def ppn1 : BitVec 12 := p.extractLsb' 20 12

/-- Invalid, or the reserved combination of W without R. -/
def faults : Bool := !p.v || (!p.r && p.w)

/-- The entry maps a page; otherwise it points to the next table. -/
def isLeaf : Bool := p.r || p.x

/-- The page may be accessed. -/
def allows (ctx : Context) (access : Access) : Bool :=
  (match ctx.mode with
    | .user => p.u
    | .supervisor => !p.u || (ctx.sum && access ≠ .fetch)) &&
  match access with
    | .fetch => p.x
    | .load => p.r || (ctx.mxr && p.x)
    | .store => p.w

/-- The entry after an access: A is set, and D for a store. -/
def marked (access : Access) : Pte :=
  p ||| (1 <<< 6) ||| if access = .store then 1 <<< 7 else 0

end Pte

/-! ### The walk -/

/-- A leaf, at the address `addr` in a table of the given level. -/
structure Leaf where
  level : ℕ
  addr : PAddr
  pte : Pte

/-- Part `i` of the virtual page number. -/
def vpn (va : BitVec 32) (i : ℕ) : BitVec 10 := va.extractLsb' (12 + 10 * i) 10

/-- The address of a table or page. -/
def pageAddr (ppn : BitVec 22) : PAddr := ppn.setWidth 34 <<< 12

variable (mem : PAddr → BitVec 32) (va : BitVec 32)

/-- The leaf that the tables from the one at `a` of level `i` on have for `va`. -/
def walk : ℕ → PAddr → Option Leaf
  | i, a =>
    let addr := a + (vpn va i).setWidth 34 * 4
    let pte : Pte := mem addr
    if pte.faults then none
    else if pte.isLeaf then some ⟨i, addr, pte⟩
    else
      match i with
      | 0 => none
      | i + 1 => walk i (pageAddr pte.ppn)

/-- A superpage is aligned. -/
def Leaf.aligned (l : Leaf) : Bool := l.level = 0 || l.pte.ppn0 = 0

/-- The leaf for an access to `va` that is granted, and `none` for a page fault. -/
def translate (satp : BitVec 32) (ctx : Context) (access : Access) : Option Leaf :=
  (walk mem va 1 (pageAddr (satp.extractLsb' 0 22))).filter fun l =>
    l.pte.allows ctx access && l.aligned

/-- The physical address that a leaf gives `va`. -/
def Leaf.paddr (l : Leaf) : PAddr :=
  if l.level = 0 then pageAddr l.pte.ppn ||| (va.extractLsb' 0 12).setWidth 34
  else l.pte.ppn1.setWidth 34 <<< 22 ||| (va.extractLsb' 0 22).setWidth 34

end Sv32

end Isa

end VirtualSoC
