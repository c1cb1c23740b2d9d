import VirtualSoC.Cpu.CsrSpec
import VirtualSoC.Lib.Bits

/-!
# The views of the CSR file

Several addresses show one register: `sstatus` shows some bits of `mstatus`, `sie` and `sip` some of
`mie` and `mip`, and the user counters are the machine counters.  `csrView` gives for an address the
register that it shows, and the mask.

A write goes to one register (`Writes`), so it is seen by the addresses that show this register and
by no others (`csr_coherent`).
-/

namespace VirtualSoC

/-! ### Views -/

/-- What the CSR addresses show: the registers, `mip` with its two halves combined, and zero. -/
inductive CsrCell
  | zero | mstatus | misa | medeleg | mideleg | mie | mtvec | mcounteren | mscratch | mepc | mcause
  | mtval | mip | mcycle | mcycleh | minstret | minstreth | stvec | scounteren | sscratch | sepc
  | scause | stval | satp
  deriving DecidableEq, Repr

/-- The value of a cell. -/
def CSRFile.cell (c : CSRFile) : CsrCell → Word
  | .zero => 0
  | .mstatus => c.mstatus
  | .misa => c.misa
  | .medeleg => c.medeleg
  | .mideleg => c.mideleg
  | .mie => c.mie
  | .mtvec => c.mtvec
  | .mcounteren => c.mcounteren
  | .mscratch => c.mscratch
  | .mepc => c.mepc
  | .mcause => c.mcause
  | .mtval => c.mtval
  | .mip => c.getMip
  | .mcycle => c.mcycle
  | .mcycleh => c.mcycleh
  | .minstret => c.minstret
  | .minstreth => c.minstreth
  | .stvec => c.stvec
  | .scounteren => c.scounteren
  | .sscratch => c.sscratch
  | .sepc => c.sepc
  | .scause => c.scause
  | .stval => c.stval
  | .satp => c.satp

/-- The cells that the addresses show, and the bits of them. -/
def csrViews : List (BitVec 16 × CsrCell × Word) :=
  [(csrMvendorid, .zero, .allOnes 32), (csrMarchid, .zero, .allOnes 32),
    (csrMimpid, .zero, .allOnes 32), (csrMhartid, .zero, .allOnes 32),
    (csrMstatus, .mstatus, .allOnes 32), (csrMisa, .misa, .allOnes 32),
    (csrMedeleg, .medeleg, .allOnes 32), (csrMideleg, .mideleg, .allOnes 32),
    (csrMie, .mie, .allOnes 32), (csrMtvec, .mtvec, .allOnes 32),
    (csrMcounteren, .mcounteren, .allOnes 32), (csrMscratch, .mscratch, .allOnes 32),
    (csrMepc, .mepc, .allOnes 32), (csrMcause, .mcause, .allOnes 32),
    (csrMtval, .mtval, .allOnes 32), (csrMip, .mip, .allOnes 32), (csrMcycle, .mcycle, .allOnes 32),
    (csrMcycleh, .mcycleh, .allOnes 32), (csrMinstret, .minstret, .allOnes 32),
    (csrMinstreth, .minstreth, .allOnes 32), (csrCycle, .mcycle, .allOnes 32),
    (csrCycleh, .mcycleh, .allOnes 32), (csrInstret, .minstret, .allOnes 32),
    (csrInstreth, .minstreth, .allOnes 32), (csrTime, .mcycle, .allOnes 32),
    (csrTimeh, .mcycleh, .allOnes 32), (csrSstatus, .mstatus, sstatusMask),
    (csrSie, .mie, sIntMask), (csrStvec, .stvec, .allOnes 32),
    (csrScounteren, .scounteren, .allOnes 32), (csrSscratch, .sscratch, .allOnes 32),
    (csrSepc, .sepc, .allOnes 32), (csrScause, .scause, .allOnes 32),
    (csrStval, .stval, .allOnes 32), (csrSip, .mip, sIntMask), (csrSatp, .satp, .allOnes 32)]

/-- The view at an address. -/
def csrView (addr : BitVec 16) : Option (CsrCell × Word) := csrViews.lookup addr

/-- The groups of addresses that show one register. -/
def csrAliases : List (List (BitVec 16)) :=
  [[csrMstatus, csrSstatus], [csrMie, csrSie], [csrMip, csrSip], [csrMcycle, csrCycle, csrTime],
    [csrMcycleh, csrCycleh, csrTimeh], [csrMinstret, csrInstret], [csrMinstreth, csrInstreth]]

/-- The addresses show the same register. -/
def CsrAlias (a b : BitVec 16) : Prop := a = b ∨ ∃ g ∈ csrAliases, a ∈ g ∧ b ∈ g

instance (a b : BitVec 16) : Decidable (CsrAlias a b) := inferInstanceAs (Decidable (_ ∨ _))

theorem lookup_cons_ite {α β : Type*} [DecidableEq α] {k a : α} {b : β} {l : List (α × β)} :
    ((a, b) :: l).lookup k = if k = a then some b else l.lookup k := by
  rw [List.lookup_cons]
  by_cases h : k = a
  · rw [if_pos h, beq_iff_eq.2 h]
  · rw [if_neg h, beq_false_of_ne h]

theorem CSRFile.readReg_eq (c : CSRFile) (addr : BitVec 16) :
    c.readReg addr = (csrView addr).map fun v => c.cell v.1 &&& v.2 := by
  have hall (x : Word) : x &&& BitVec.allOnes 32 = x := BitVec.and_allOnes
  unfold readReg csrView csrViews
  simp only [lookup_cons_ite, List.lookup_nil, Option.map_none, Option.map_some,
    apply_ite (Option.map fun v : CsrCell × Word => c.cell v.1 &&& v.2)]
  simp only [cell, hall]

theorem mem_csrViews {addr : BitVec 16} {v : CsrCell × Word} (h : csrView addr = some v) :
    (addr, v) ∈ csrViews := by
  obtain ⟨l₁, l₂, hl, -⟩ := List.lookup_eq_some_iff.1 h
  rw [hl]
  exact List.mem_append_right _ List.mem_cons_self

theorem csrAlias_of_mem : ∀ v ∈ csrViews, ∀ w ∈ csrViews, v.2.1 = w.2.1 → v.2.1 ≠ .zero →
    CsrAlias v.1 w.1 := by
  decide +kernel

/-! ### Writes -/

/-- What a read returns after a write: the written value with the bits that the register keeps
constant. -/
def legalised (c : CSRFile) (addr : BitVec 16) (v : Word) : Word :=
  if addr = csrMstatus then
    if v.extractLsb' 11 2 = 2 then v &&& mstatusWriteMask &&& ~~~mstatusMppMask
    else v &&& mstatusWriteMask
  else if addr = csrMisa then c.misa
  else if addr = csrMepc ∨ addr = csrSepc then v &&& ~~~1
  else if addr = csrMip then (v &&& 1 <<< 1) ||| c.hwMip
  else if addr = csrSstatus then v &&& sstatusMask
  else if addr = csrSie then v &&& sIntMask
  else if addr = csrSip then ((v &&& 1 <<< 1) ||| c.hwMip) &&& sIntMask
  else v

/-- The write has put `v` where `addr` shows it, and has changed no other cell. -/
structure Writes (c c' : CSRFile) (addr : BitVec 16) (v : Word) : Prop where
  cell : ∃ w, csrView addr = some w ∧ w.1 ≠ .zero ∧
    c'.cell w.1 &&& w.2 = legalised c addr v ∧ ∀ k ≠ w.1, c'.cell k = c.cell k
  hwMip : c'.hwMip = c.hwMip

theorem legalMstatus_eq (c : CSRFile) (v : Word) :
    CSRFile.legalMstatus v = legalised c csrMstatus v := by
  have hthree : (3 : Word) = (BitVec.allOnes 2).setWidth 32 := rfl
  have hfield : ((v &&& mstatusWriteMask) >>> 11) &&& 3 = 2 ↔ v.extractLsb' 11 2 = 2 := by
    have hkeep : (v &&& mstatusWriteMask).extractLsb' 11 2 = v.extractLsb' 11 2 := by
      have hmask : mstatusWriteMask.extractLsb' 11 2 = BitVec.allOnes 2 := by decide
      rw [BitVec.extractLsb'_and, hmask, BitVec.and_allOnes]
    rw [hthree, Bits.ushiftRight_and_ones, hkeep]
    exact Bits.setWidth_inj (y := 2) (by decide)
  unfold CSRFile.legalMstatus legalised
  rw [if_pos rfl]
  dsimp only
  split
  next h => rw [if_pos (hfield.1 h)]; rfl
  next h => rw [if_neg (mt hfield.2 h)]

/-- Masking again what a masked write has put in place. -/
theorem and_not_or_and_and (x v m : Word) : ((x &&& ~~~m) ||| (v &&& m)) &&& m = v &&& m :=
  Bits.clear_or_and (by rw [BitVec.and_assoc, BitVec.and_self])

theorem writes_of_writeReg {c : CSRFile} {addr : BitVec 16} {v : Word} :
    ∀ c', c.writeReg addr v = some c' → Writes c c' addr v := by
  unfold CSRFile.writeReg
  repeat' apply forall_some_ite
  all_goals first | rintro rfl c' ⟨⟩ | rintro c' ⟨⟩
  all_goals
    refine ⟨⟨_, rfl, nofun, ?_, ?_⟩, rfl⟩
    -- the branch leaves the other fields alone
    on_goal 2 =>
      intro j hj
      cases j <;> first | rfl | exact absurd rfl hj
  all_goals try exact BitVec.and_allOnes
  · exact BitVec.and_allOnes.trans (legalMstatus_eq c v)
  · exact and_not_or_and_and c.mstatus v sstatusMask
  · exact and_not_or_and_and c.mie v sIntMask
  · rfl

/-! ### Coherence -/

/-- The user counters, with the machine counters that they show. -/
def userCounters : List (BitVec 16 × BitVec 16) :=
  [(csrCycle, csrMcycle), (csrCycleh, csrMcycleh), (csrTime, csrMcycle), (csrTimeh, csrMcycleh),
    (csrInstret, csrMinstret), (csrInstreth, csrMinstreth)]

/-- The addresses that show one register agree. -/
structure ViewsAgree (c : CSRFile) : Prop where
  sstatus : ∀ p q x y, c.read csrSstatus p = some x → c.read csrMstatus q = some y →
    x = y &&& sstatusMask
  sie : ∀ p q x y, c.read csrSie p = some x → c.read csrMie q = some y → x = y &&& sIntMask
  sip : ∀ p q x y, c.read csrSip p = some x → c.read csrMip q = some y → x = y &&& sIntMask
  counters : ∀ r ∈ userCounters, ∀ p q x y, c.read r.1 p = some x → c.read r.2 q = some y → x = y

/-- A successful write of `v` to `addr` in the mode `priv` is seen where it should be, and nowhere
else. -/
structure WriteCoherent (c c' : CSRFile) (addr : BitVec 16) (priv : Priv) (v : Word)
    (onSatpWrite : Bool) : Prop where
  readBack : c'.read addr priv = some (legalised c addr v)
  others : ∀ a p, ¬ CsrAlias addr a → c'.read a p = c.read a p
  hwMip : c'.hwMip = c.hwMip
  satp : onSatpWrite = true ↔ addr = csrSatp

theorem CSRFile.readReg_of_read {c : CSRFile} {addr : BitVec 16} {priv : Priv} {x : Word}
    (h : c.read addr priv = some x) : c.readReg addr = some x := by
  unfold read at h
  split at h
  · cases h
  · exact h

theorem viewsAgree (c : CSRFile) : ViewsAgree c where
  sstatus p q x y hx hy := by
    cases CSRFile.readReg_of_read hx
    cases CSRFile.readReg_of_read hy
    rfl
  sie p q x y hx hy := by
    cases CSRFile.readReg_of_read hx
    cases CSRFile.readReg_of_read hy
    rfl
  sip p q x y hx hy := by
    cases CSRFile.readReg_of_read hx
    cases CSRFile.readReg_of_read hy
    rfl
  counters r hr p q x y hx hy := by
    have hall : userCounters.all (fun r => csrView r.1 = csrView r.2) = true := by decide
    have hsame : csrView r.1 = csrView r.2 := of_decide_eq_true (List.all_eq_true.1 hall r hr)
    have hx := CSRFile.readReg_of_read hx
    have hy := CSRFile.readReg_of_read hy
    rw [CSRFile.readReg_eq, hsame, ← CSRFile.readReg_eq] at hx
    exact Option.some.inj (hx.symm.trans hy)

theorem Writes.coherent {c c' : CSRFile} {addr : BitVec 16} {priv : Priv} {v : Word} {b : Bool}
    (h : Writes c c' addr v) (hp : CSRFile.privOk addr priv) (hb : b = decide (addr = csrSatp)) :
    WriteCoherent c c' addr priv v b := by
  obtain ⟨⟨w, hview, hzero, hcell, hothers⟩, hhw⟩ := h
  refine ⟨?_, fun a p ha => ?_, hhw, by rw [hb, decide_eq_true_eq]⟩
  · rw [CSRFile.read, hp, CSRFile.readReg_eq, hview, Option.map_some, hcell]
    rfl
  · unfold CSRFile.read
    rw [CSRFile.readReg_eq, CSRFile.readReg_eq]
    cases hx : csrView a with
    | none => rfl
    | some x =>
      -- an address that shows the cell written would be an alias
      have hne : x.1 ≠ w.1 := fun he =>
        ha (csrAlias_of_mem _ (mem_csrViews hview) _ (mem_csrViews hx) he.symm hzero)
      rw [Option.map_some, Option.map_some, hothers x.1 hne]

/-- **The CSR file is coherent.** -/
theorem csr_coherent (c : CSRFile) : ViewsAgree c ∧
    ∀ addr priv v c' b, c.write addr priv v = some (c', b) →
      ViewsAgree c' ∧ WriteCoherent c c' addr priv v b := by
  refine ⟨viewsAgree c, fun addr priv v c' b h => ⟨viewsAgree c', ?_⟩⟩
  obtain ⟨hp, -, hw, hb⟩ := CSRFile.write_eq_some h
  exact (writes_of_writeReg c' hw).coherent hp hb

/-- A write of the reserved MPP value through `mstatus`. -/
theorem csr_coherent_mstatus : ∃ c', ({} : CSRFile).write csrMstatus prvM 0x1008 = some (c', false) ∧
    c'.read csrSstatus prvS = some 0 ∧ c'.read csrMstatus prvM = some 8 := by
  obtain ⟨-, h⟩ := csr_coherent {}
  have hw : ({} : CSRFile).write csrMstatus prvM 0x1008 = some ({ mstatus := 8 }, false) := by decide
  exact ⟨_, hw, by decide, (h _ _ _ _ _ hw).2.readBack.trans (by decide)⟩

end VirtualSoC
