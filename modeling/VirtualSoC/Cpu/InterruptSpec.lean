import Mathlib.Data.List.Basic
import VirtualSoC.Cpu.IssSpec
import VirtualSoC.Cpu.TrapReturn

/-!
# Interrupt selection and entry

The privileged architecture takes, among the interrupts that are pending and enabled for the mode
they are destined for, those for M-mode before those for S-mode, and each of the two in a fixed
order (`SelectsInterrupt`).  `check_pending_interrupts` puts the two sets into one word before it
goes through the order, so a delegated interrupt may overtake one for M-mode; it follows the
architecture in all other cases (`selectsInterrupt_iff`).

Whatever it selects is entered in the mode that it was enabled for, and the loop of `ISS::run`
enters at most one handler in S-mode and then one in M-mode before it fetches an instruction
(`interrupts_entered`).
-/

namespace VirtualSoC

/-- The first match in a list comes before the others. -/
theorem idxOf_le_of_find?_eq_some {α : Type*} [DecidableEq α] {l : List α} {p : α → Bool} {a b : α}
    (h : l.find? p = some a) (hb : b ∈ l) (hp : p b) : l.idxOf a ≤ l.idxOf b := by
  obtain ⟨-, before, after, rfl, hbefore⟩ := List.find?_eq_some_iff_append.1 h
  have hnot : b ∉ before := fun hmem => by
    have hfalse := hbefore b hmem
    rw [hp] at hfalse
    cases hfalse
  have hle : (before ++ a :: after).idxOf a ≤ before.length := by
    by_cases ha : a ∈ before
    · rw [List.idxOf_append_of_mem ha]
      exact (List.idxOf_lt_length_of_mem ha).le
    · rw [List.idxOf_append_of_notMem ha, List.idxOf_cons_self]
      exact le_rfl
  rw [List.idxOf_append_of_notMem (a := b) hnot]
  exact hle.trans (Nat.le_add_right _ _)

/-! ### Takeable interrupts -/

namespace TrapLevel

/-- The privilege of the level. -/
def priv : TrapLevel → Priv
  | m => prvM
  | s => prvS

/-- Interrupts of the level are enabled: from below always, in the level by its enable bit. -/
def Enabled (l : TrapLevel) (s : CPUState) : Prop :=
  s.priv < l.priv ∨ s.priv = l.priv ∧ s.csr.mstatus &&& l.ie ≠ 0

instance (l : TrapLevel) (s : CPUState) : Decidable (l.Enabled s) :=
  inferInstanceAs (Decidable (_ ∨ _))

end TrapLevel

section

variable (s : CPUState)

/-- The level that an interrupt is destined for. -/
def destination (bit : ℕ) : TrapLevel := if s.csr.mideleg.getLsbD bit then .s else .m

/-- The interrupt is pending, enabled, and enabled for the level that it is destined for. -/
def Takeable (bit : ℕ) : Prop :=
  bit ∈ irqPriority ∧ s.csr.getMip.getLsbD bit ∧ s.csr.mie.getLsbD bit ∧
    (destination s bit).Enabled s

instance (bit : ℕ) : Decidable (Takeable s bit) := inferInstanceAs (Decidable (_ ∧ _))

/-- The order among interrupts for the same level. -/
def Precedes (a b : ℕ) : Prop := irqPriority.idxOf a < irqPriority.idxOf b

instance (a b : ℕ) : Decidable (Precedes a b) := inferInstanceAs (Decidable (_ < _))

/-- The selection that the architecture prescribes: 0 exactly when there is nothing to take, else an
interrupt that comes before all others, those for M-mode before the delegated ones. -/
structure SelectsInterrupt (irq : Word) : Prop where
  none_iff : irq = 0 ↔ ∀ bit, ¬ Takeable s bit
  first : irq ≠ 0 → ∃ bit, irq = intBit ||| BitVec.ofNat 32 bit ∧ Takeable s bit ∧
    ∀ b, Takeable s b → b ≠ bit → destination s bit = .m ∧ destination s b = .s ∨
      destination s b = destination s bit ∧ Precedes bit b

/-- A delegated interrupt comes before every interrupt for M-mode, and there is one of these. -/
def Overtakes : Prop :=
  ∃ bit, Takeable s bit ∧ destination s bit = .s ∧
    (∃ b, Takeable s b ∧ destination s b = .m) ∧
      ∀ b, Takeable s b → destination s b = .m → Precedes bit b

end

/-! ### What `check_pending_interrupts` selects -/

section

variable (s : CPUState)

/-- The interrupts that are looked at. -/
def activeInterrupts : Word :=
  let pending := s.csr.getMip &&& s.csr.mie
  (if TrapLevel.m.Enabled s then pending &&& ~~~s.csr.mideleg else 0) |||
    (if TrapLevel.s.Enabled s then pending &&& s.csr.mideleg else 0)

variable {s}

/-- The additional test for M-mode makes no difference. -/
theorem sEnabled_iff :
    s.priv ≠ prvM ∧ (s.priv < prvS ∨ (s.priv = prvS ∧ s.csr.mstatus &&& mstatusSie ≠ 0)) ↔
      TrapLevel.s.Enabled s := by
  refine and_iff_right_of_imp fun h hM => ?_
  rw [hM] at h
  rcases h with h | ⟨h, -⟩
  · exact absurd h (by decide)
  · exact absurd h (by decide)

theorem activeInterrupts_getLsbD {bit : ℕ} (hbit : bit < 32) :
    (activeInterrupts s).getLsbD bit ↔ s.csr.getMip.getLsbD bit ∧ s.csr.mie.getLsbD bit ∧
      (destination s bit).Enabled s := by
  have hzero : (0 : Word).getLsbD bit = false := BitVec.getLsbD_zero
  have hite (c : Prop) [Decidable c] (x : Word) :
      (if c then x else 0).getLsbD bit = (decide c && x.getLsbD bit) := by
    split
    next h => rw [decide_eq_true h, Bool.true_and]
    next h => rw [decide_eq_false h, Bool.false_and, hzero]
  unfold activeInterrupts destination
  simp only [BitVec.getLsbD_or, hite, BitVec.getLsbD_and, BitVec.getLsbD_not, hbit, decide_true,
    Bool.true_and]
  by_cases hd : s.csr.mideleg.getLsbD bit
  · simp [hd, and_comm, and_left_comm, and_assoc]
  · simp [hd, and_comm, and_left_comm, and_assoc]

theorem lt_of_mem_irqPriority : ∀ bit ∈ irqPriority, bit < 32 := by decide

theorem active_bit {active : Word} {bit : ℕ} (hbit : bit < 32) :
    active &&& ((1 : Word) <<< bit) ≠ 0 ↔ active.getLsbD bit := by
  have htwo : (1 : Word) <<< bit = BitVec.twoPow 32 bit := (BitVec.twoPow_eq 32 bit).symm
  rw [htwo, Ne, Bits.and_twoPow_eq_zero active hbit, Bool.not_eq_false]

theorem takeable_iff {bit : ℕ} (hmem : bit ∈ irqPriority) :
    Takeable s bit ↔ activeInterrupts s &&& ((1 : Word) <<< bit) ≠ 0 := by
  have hbit := lt_of_mem_irqPriority bit hmem
  rw [active_bit hbit, activeInterrupts_getLsbD hbit]
  exact and_iff_right hmem

/-- The scan of `check_pending_interrupts`. -/
def firstInterrupt (active : Word) : Word :=
  match irqPriority.find? fun bit => active &&& ((1 : Word) <<< bit) ≠ 0 with
  | some bit => intBit ||| BitVec.ofNat 32 bit
  | none => 0

theorem checkPendingInterrupts_eq_first :
    checkPendingInterrupts s = firstInterrupt (activeInterrupts s) := by
  have hzero : firstInterrupt 0 = 0 := by decide
  unfold checkPendingInterrupts
  by_cases hpending : s.csr.getMip &&& s.csr.mie = 0
  · have hactive : activeInterrupts s = 0 := by
      unfold activeInterrupts
      rw [hpending]
      simp
    rw [if_pos hpending, hactive, hzero]
  · dsimp only
    rw [if_neg hpending]
    simp only [sEnabled_iff]
    change (if activeInterrupts s = 0 then 0 else firstInterrupt (activeInterrupts s)) = _
    split
    next hactive => rw [hactive, hzero]
    next hactive => rfl

/-- The interrupt selected is the first of the takeable ones. -/
theorem checkPendingInterrupts_cases :
    (checkPendingInterrupts s = 0 ∧ ∀ bit, ¬ Takeable s bit) ∨
      ∃ bit, checkPendingInterrupts s = intBit ||| BitVec.ofNat 32 bit ∧ Takeable s bit ∧
        ∀ b, Takeable s b → irqPriority.idxOf bit ≤ irqPriority.idxOf b := by
  rw [checkPendingInterrupts_eq_first, firstInterrupt]
  cases hfind : irqPriority.find? fun bit => activeInterrupts s &&& ((1 : Word) <<< bit) ≠ 0 with
  | none =>
    refine .inl ⟨rfl, fun bit hbit => ?_⟩
    have hnone := List.find?_eq_none.1 hfind bit hbit.1
    exact hnone (decide_eq_true ((takeable_iff hbit.1).1 hbit))
  | some bit =>
    have hmem := List.mem_of_find?_eq_some hfind
    refine .inr ⟨bit, rfl, (takeable_iff hmem).2 ?_, fun b hb => ?_⟩
    · exact of_decide_eq_true (List.find?_eq_some_iff_append.1 hfind).1
    · exact idxOf_le_of_find?_eq_some hfind hb.1 (decide_eq_true ((takeable_iff hb.1).1 hb))

theorem intBit_or_ne_zero :
    ∀ bit ∈ irqPriority, intBit ||| BitVec.ofNat 32 bit ≠ 0 := by decide

theorem intBit_or_inj : ∀ a ∈ irqPriority, ∀ b ∈ irqPriority,
    intBit ||| BitVec.ofNat 32 a = intBit ||| BitVec.ofNat 32 b → a = b := by decide

/-- **Interrupt selection follows the architecture unless a delegated interrupt overtakes those for
M-mode.** -/
theorem selectsInterrupt_iff (s : CPUState) :
    SelectsInterrupt s (checkPendingInterrupts s) ↔ ¬ Overtakes s := by
  rcases checkPendingInterrupts_cases (s := s) with ⟨hzero, hnone⟩ | ⟨bit, hirq, htake, hfirst⟩
  · rw [hzero]
    refine iff_of_true ⟨iff_of_true rfl hnone, fun h => absurd rfl h⟩ ?_
    rintro ⟨b, hb, -⟩
    exact hnone b hb
  · have hne : checkPendingInterrupts s ≠ 0 := hirq ▸ intBit_or_ne_zero bit htake.1
    constructor
    · rintro ⟨-, hsel⟩ ⟨b, hb, hdb, ⟨k, hk, hdk⟩, hbefore⟩
      obtain ⟨bit', hirq', htake', hall⟩ := hsel hne
      obtain rfl : bit' = bit :=
        intBit_or_inj bit' htake'.1 bit htake.1 (hirq'.symm.trans hirq)
      -- the interrupt selected is for M-mode, so `b` comes before it
      have hd : destination s bit' = .m := by
        by_cases hkb : k = bit'
        · exact hkb ▸ hdk
        · rcases hall k hk hkb with ⟨h, -⟩ | ⟨h, -⟩
          · exact h
          · exact h.symm.trans hdk
      exact absurd (hbefore bit' htake hd) (not_lt.2 (hfirst b hb))
    · intro hover
      refine ⟨iff_of_false hne fun h => h bit htake, fun _ => ⟨bit, hirq, htake, fun b hb hbne => ?_⟩⟩
      have hlt {k : ℕ} (hk : Takeable s k) (hkne : k ≠ bit) : Precedes bit k :=
        lt_of_le_of_ne (hfirst k hk) fun h => hkne (List.idxOf_inj htake.1 |>.1 h).symm
      cases hd : destination s bit with
      | m =>
        cases hdb : destination s b with
        | m => exact .inr ⟨rfl, hlt hb hbne⟩
        | s => exact .inl ⟨rfl, rfl⟩
      | s =>
        refine .inr ⟨?_, hlt hb hbne⟩
        cases hdb : destination s b with
        | s => rfl
        | m =>
          refine absurd ⟨bit, htake, hd, ⟨b, hb, hdb⟩, fun k hk hdk => hlt hk ?_⟩ hover
          rintro rfl
          cases hd.symm.trans hdk

end

/-- A supervisor external interrupt, delegated, and a supervisor software interrupt for M-mode, both
pending in U-mode. -/
def overtaken : CPUState where
  priv := prvU
  csr := { hwMip := 1 <<< 9, swMip := 1 <<< 1, mie := 1 <<< 9 ||| 1 <<< 1, mideleg := 1 <<< 9 }

theorem not_selectsInterrupt :
    ¬ ∀ s : CPUState, s.priv = prvU ∨ s.priv = prvS ∨ s.priv = prvM →
      SelectsInterrupt s (checkPendingInterrupts s) := by
  intro h
  obtain ⟨bit, hirq, htake, hall⟩ := (h overtaken (.inl rfl)).first (by decide)
  obtain rfl : bit = 9 := intBit_or_inj bit htake.1 9 (by decide) (hirq.symm.trans (by decide))
  rcases hall 1 (by decide) (by decide) with ⟨hd, -⟩ | ⟨hd, -⟩
  · exact absurd hd (by decide)
  · exact absurd hd (by decide)

/-! ### Interrupt entry -/

theorem mtrapMstatus_mie (x : Word) (priv : Priv) : mtrapMstatus x priv &&& mstatusMie = 0 := by
  rw [mtrapMstatus_eq]
  refine Bits.push_and_flag ?_ x
  have htwo : mstatusMie = BitVec.twoPow 32 3 := rfl
  rw [htwo, BitVec.and_twoPow, if_neg]
  · rfl
  · simp [mstatusMppShift]

theorem strapMstatus_sie (x : Word) (priv : Priv) : strapMstatus x priv &&& mstatusSie = 0 := by
  rw [strapMstatus_eq]
  refine Bits.push_and_flag ?_ x
  split <;> decide

theorem interrupt_code : ∀ bit ∈ irqPriority, (intBit ||| BitVec.ofNat 32 bit) &&& intBit ≠ 0 ∧
    ((intBit ||| BitVec.ofNat 32 bit) &&& 0x7FFFFFFF).toNat = bit := by decide

section

variable {s : CPUState}

/-- `take_trap` decides the delegation of an interrupt by itself. -/
theorem trapDelegated_interrupt {bit : ℕ} (hmem : bit ∈ irqPriority) :
    trapDelegated s (intBit ||| BitVec.ofNat 32 bit) ↔
      s.priv ≤ prvS ∧ destination s bit = .s := by
  obtain ⟨hint, hcode⟩ := interrupt_code bit hmem
  have hshift : (s.csr.mideleg >>> bit).getLsbD 0 = s.csr.mideleg.getLsbD bit :=
    BitVec.getLsbD_ushiftRight ..
  have hbit : (s.csr.mideleg >>> bit) &&& 1 ≠ 0 ↔ s.csr.mideleg.getLsbD bit := by
    rw [← hshift]
    exact active_bit (show 0 < 32 by decide)
  unfold trapDelegated destination
  rw [if_pos hint, hcode, decide_eq_true_eq, hbit]
  refine and_congr_right fun _ => ?_
  split
  next h => exact iff_of_true h rfl
  next h => exact iff_of_false h nofun

/-- For the interrupts that it is called with, it decides as the selection has done. -/
theorem enteredLevel_of_takeable {bit : ℕ} (h : Takeable s bit) :
    enteredLevel s (intBit ||| BitVec.ofNat 32 bit) = destination s bit := by
  obtain ⟨hmem, -, -, hen⟩ := h
  unfold enteredLevel
  cases hd : destination s bit with
  | m => rw [if_neg fun h => nomatch hd.symm.trans ((trapDelegated_interrupt hmem).1 h).2]
  | s =>
    rw [hd] at hen
    have hle : s.priv ≤ prvS := by
      rcases hen with hlt | ⟨heq, -⟩
      · exact BitVec.le_of_lt hlt
      · exact heq ▸ BitVec.le_refl _
    rw [if_pos ((trapDelegated_interrupt hmem).2 ⟨hle, hd⟩)]

/-- What entering a handler does to what interrupts depend on. -/
theorem takeTrap_interrupts (cause tval : Word) :
    (takeTrap s cause tval).priv = (enteredLevel s cause).priv ∧
      (takeTrap s cause tval).csr.mstatus &&& (enteredLevel s cause).ie = 0 ∧
      (takeTrap s cause tval).csr.getMip = s.csr.getMip ∧
      (takeTrap s cause tval).csr.mie = s.csr.mie ∧
      (takeTrap s cause tval).csr.mideleg = s.csr.mideleg := by
  unfold takeTrap enteredLevel
  split
  · exact ⟨rfl, strapMstatus_sie .., rfl, rfl, rfl⟩
  · exact ⟨rfl, mtrapMstatus_mie .., rfl, rfl, rfl⟩

/-- In a level whose interrupts are disabled, only those of a higher level can be taken. -/
theorem not_enabled_of_entered {l : TrapLevel} (hpriv : s.priv = l.priv)
    (hie : s.csr.mstatus &&& l.ie = 0) : ¬ l.Enabled s ∧ ¬ TrapLevel.s.Enabled s := by
  have hself : ¬ l.Enabled s := by
    rintro (hlt | ⟨-, hne⟩)
    · exact absurd (hpriv ▸ hlt) (BitVec.lt_irrefl _)
    · exact hne hie
  refine ⟨hself, ?_⟩
  cases l with
  | s => exact hself
  | m =>
    rintro (hlt | ⟨heq, -⟩)
    · exact absurd (hpriv ▸ hlt) (by decide)
    · exact absurd (hpriv.symm.trans heq) (by decide)

end

/-- From `s`, the interrupt selected is entered in the level `l`, which it was found enabled for; `t`
is the state at the handler. -/
structure EntersInterrupt (s t : CPUState) (l : TrapLevel) : Prop where
  selected : ∃ bit, checkPendingInterrupts s = intBit ||| BitVec.ofNat 32 bit ∧ Takeable s bit ∧
    destination s bit = l
  trap : t = { takeTrap s (checkPendingInterrupts s) 0 with
    pc := (takeTrap s (checkPendingInterrupts s) 0).nextPc }
  entered : t.priv = l.priv
  notBelow : s.priv ≤ l.priv
  enabled : s.priv = l.priv → s.csr.mstatus &&& l.ie ≠ 0

/-- The interrupts that the loop takes, by their levels, before it fetches an instruction. -/
def TakesInterrupts {β : Type*} (bus : PhysBus β) (pick : Tlb → ℕ) :
    List TrapLevel → ISS β → Prop
  | [], iss => checkPendingInterrupts iss.state = 0
  | l :: ls, iss =>
    EntersInterrupt iss.state (iss.iterate bus pick).1.state l ∧
      (iss.iterate bus pick).2.insn = none ∧ TakesInterrupts bus pick ls (iss.iterate bus pick).1

section

variable {β : Type*} {bus : PhysBus β} {pick : Tlb → ℕ} {iss : ISS β}

variable (bus pick) in
theorem ISS.iterate_of_interrupt (hwfi : iss.inWfi = false) (hhalt : iss.halted = false)
    (h : checkPendingInterrupts iss.state ≠ 0) :
    iss.iterate bus pick = (iss.enterTrap (checkPendingInterrupts iss.state) 0,
      { trap := some (checkPendingInterrupts iss.state) }) := by
  unfold iterate
  simp only [hwfi, hhalt, Bool.false_eq_true, if_false, if_pos h]

/-- One interrupt: afterwards, interrupts of its level and of S-mode are no longer enabled. -/
theorem entersInterrupt_enterTrap (h : checkPendingInterrupts iss.state ≠ 0) :
    ∃ l, EntersInterrupt iss.state
        (iss.enterTrap (checkPendingInterrupts iss.state) 0).state l ∧
      ∀ bit, Takeable (iss.enterTrap (checkPendingInterrupts iss.state) 0).state bit →
        l = .s ∧ destination (iss.enterTrap (checkPendingInterrupts iss.state) 0).state bit = .m := by
  rcases checkPendingInterrupts_cases (s := iss.state) with ⟨hzero, -⟩ | ⟨bit, hirq, htake, -⟩
  · exact absurd hzero h
  have hlevel := enteredLevel_of_takeable htake
  rw [← hirq] at hlevel
  obtain ⟨hpriv, hie, -⟩ := takeTrap_interrupts (s := iss.state)
    (checkPendingInterrupts iss.state) 0
  rw [hlevel] at hpriv hie
  refine ⟨destination iss.state bit, ⟨⟨bit, hirq, htake, rfl⟩, rfl, hpriv, ?_, ?_⟩, fun b hb => ?_⟩
  · rcases htake.2.2.2 with hlt | ⟨heq, -⟩
    · exact BitVec.le_of_lt hlt
    · exact heq ▸ BitVec.le_refl _
  · intro heq
    rcases htake.2.2.2 with hlt | ⟨-, hne⟩
    · exact absurd (heq ▸ hlt) (BitVec.lt_irrefl _)
    · exact hne
  · obtain ⟨hself, hS⟩ := not_enabled_of_entered
      (s := (iss.enterTrap (checkPendingInterrupts iss.state) 0).state) hpriv hie
    have hen := hb.2.2.2
    cases hd : destination (iss.enterTrap (checkPendingInterrupts iss.state) 0).state b with
    | s => exact absurd (hd ▸ hen) hS
    | m =>
      refine ⟨?_, rfl⟩
      cases hl : destination iss.state bit with
      | s => rfl
      | m =>
        rw [hl] at hself
        exact absurd (hd ▸ hen) hself

theorem checkPendingInterrupts_eq_zero {s : CPUState} (h : ∀ bit, ¬ Takeable s bit) :
    checkPendingInterrupts s = 0 := by
  rcases checkPendingInterrupts_cases (s := s) with ⟨hzero, -⟩ | ⟨bit, -, htake, -⟩
  · exact hzero
  · exact absurd htake (h bit)

/-- **Interrupt entry terminates and agrees with the selection.**  With the interrupt lines
unchanged, the loop takes at most one interrupt into S-mode and then at most one into M-mode before
it fetches an instruction. -/
theorem interrupts_entered (bus : PhysBus β) (pick : Tlb → ℕ) (iss : ISS β)
    (hwfi : iss.inWfi = false) (hhalt : iss.halted = false) :
    ∃ levels, levels.Sublist [TrapLevel.s, .m] ∧ TakesInterrupts bus pick levels iss := by
  by_cases h : checkPendingInterrupts iss.state = 0
  · exact ⟨[], List.nil_sublist _, h⟩
  have hstep := ISS.iterate_of_interrupt bus pick hwfi hhalt h
  obtain ⟨l, henters, hnext⟩ := entersInterrupt_enterTrap h
  generalize hiss' : iss.enterTrap (checkPendingInterrupts iss.state) 0 = iss' at henters hnext hstep
  have hwfi' : iss'.inWfi = false := hiss' ▸ hwfi
  have hhalt' : iss'.halted = false := hiss' ▸ hhalt
  by_cases h' : checkPendingInterrupts iss'.state = 0
  · refine ⟨[l], ?_, ?_⟩
    · cases l
      · exact .cons _ (List.Sublist.refl _)
      · exact .cons_cons _ (List.nil_sublist _)
    · rw [TakesInterrupts, hstep]
      exact ⟨henters, rfl, h'⟩
  · -- a second interrupt is for M-mode, and the first was for S-mode
    have hstep' := ISS.iterate_of_interrupt bus pick hwfi' hhalt' h'
    obtain ⟨l', henters', hnext'⟩ := entersInterrupt_enterTrap h'
    obtain ⟨bit, -, htake, hdest⟩ := henters'.selected
    obtain ⟨rfl, hm⟩ := hnext bit htake
    obtain rfl : TrapLevel.m = l' := hm.symm.trans hdest
    refine ⟨[.s, .m], List.Sublist.refl _, ?_⟩
    rw [TakesInterrupts, hstep, TakesInterrupts, hstep']
    refine ⟨henters, rfl, henters', rfl, checkPendingInterrupts_eq_zero fun b hb => ?_⟩
    cases (hnext' b hb).1

end

/-- First the delegated interrupt, then the one for M-mode. -/
theorem interrupts_entered_overtaken :
    ∃ levels, levels.Sublist [TrapLevel.s, .m] ∧
      TakesInterrupts ⟨fun _ _ b => (0, b), fun _ _ _ b => b, id⟩ (fun _ => 0) levels
        { state := overtaken, env := { bus := () } } :=
  interrupts_entered _ _ { state := overtaken, env := { bus := () } } rfl rfl

end VirtualSoC
