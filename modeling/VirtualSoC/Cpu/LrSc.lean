import VirtualSoC.Cpu.IssSpec
import VirtualSoC.Cpu.RamBus

/-!
# LR/SC over runs

The DMA engine and the SD controller transfer in threads of their own, so their writes fall
between the iterations of the run loop.  `ISS.access` is the data access that an iteration
completes, with its physical address.  A reservation is kept by virtual address and dropped by
stores and SC.W only, so an SC.W that succeeds follows a completed LR.W to the same word, with
no SC.W and no write to the word in between (`Reserved`), as long as no step is one of those that
the reservation does not see (`KeepsReservation`, `sc_success_reserved`).
-/

namespace VirtualSoC

/-! ### The data access of an iteration -/

section

variable {β : Type*} (bus : PhysBus β) (pick : Tlb → ℕ)

/-- The physical address at which the instruction `d` completes its access; an SC.W whose
reservation does not hold has none. -/
def accessPaddr (s : CPUState) (d : DecodedInstr) (e : Env β) : Option Word :=
  let vaddr := accessAddr s d
  match d.type.memKind with
  | some .load | some .lr => (dataPaddr bus pick s vaddr .load e).1
  | some .store => (dataPaddr bus pick s vaddr .store e).1
  | some .sc => if s.lrSc.check vaddr then (dataPaddr bus pick s vaddr .store e).1 else none
  | some .amo => (dataPaddr bus pick s vaddr .store (memRead bus pick s vaddr 4 e).2).1
  | none => none

/-- The kind of the data access that the iteration completes, and its physical address. -/
def ISS.access (iss : ISS β) : Option (MemKind × Word) :=
  match iss.issue bus pick with
  | none => none
  | some (d, env) =>
    if accessAddr iss.state d &&& d.type.alignMask = 0 then
      match d.type.memKind, accessPaddr bus pick iss.state d { env with memFault := false } with
      | some kind, some paddr => some (kind, paddr)
      | _, _ => none
    else none

/-- The iteration executes an SC.W, whether it succeeds, fails or is refused. -/
def ISS.ExecutesSc (iss : ISS β) : Prop :=
  ∃ d env, iss.issue bus pick = some (d, env) ∧ d.type.memKind = some .sc ∧
    AccessAligned iss.state d

/-- The iteration is an SC.W that reports success. -/
def ISS.ReportsSuccess (iss : ISS β) : Prop :=
  ∃ d, (iss.iterate bus pick).2.insn = some d ∧ d.type = .scW ∧ d.rd ≠ 0 ∧
    (iss.iterate bus pick).2.trap = none ∧ (iss.iterate bus pick).1.state.getReg d.rd = 0

end

/-! ### The machine -/

/-- What can happen to the ISS on its platform. -/
inductive SocInput (β : Type*)
  | cycle (pick : Tlb → ℕ)
  /-- Another bus master writes the `n` bytes at `a`, which does `f` to the world; `n` is zero for
  any other change. -/
  | master (a : Word) (n : ℕ) (f : β → β)
  | line (bit : ℕ) (v : Bool)
  | halt
  | resume
  | step

/-- The input of the ISS. -/
def SocInput.toInput {β : Type*} : SocInput β → Input β
  | .cycle pick => .cycle pick
  | .master _ _ f => .world f
  | .line bit v => .line bit v
  | .halt => .halt
  | .resume => .resume
  | .step => .step

/-- The ISS, and a ghost: the physical address of the last LR.W that has completed. -/
structure Tracked (β : Type*) where
  iss : ISS β
  lastLr : Option Word := none

section

variable {β : Type*} (bus : PhysBus β)

/-- The ghost after an input. -/
def Tracked.lastLrNext (t : Tracked β) : SocInput β → Option Word
  | .cycle pick =>
    match t.iss.access bus pick with
    | some (.lr, p) => some p
    | _ => t.lastLr
  | _ => t.lastLr

/-- The ISS with the ghost. -/
def trackedMachine : Machine (Tracked β) (SocInput β) Event where
  step t i :=
    let (iss, event) := (issMachine bus).step t.iss i.toInput
    ({ iss, lastLr := t.lastLrNext bus i }, event)

/-- A byte of the `n` bytes at `a` is a byte of the word at `p`. -/
def Overlaps (a : Word) (n : ℕ) (p : Word) : Prop :=
  ∃ i < n, ∃ j < 4, a + BitVec.ofNat 32 i = p + BitVec.ofNat 32 j

/-- An LR.W from the word at `p` completes. -/
def LrCompletes (p : Word) (t : Tracked β) (i : SocInput β) : Prop :=
  ∃ pick, i = .cycle pick ∧ t.iss.access bus pick = some (.lr, p) ∧
    (t.iss.iterate bus pick).2.trap = none

/-- An SC.W is executed, or the word at `p` is written: by a store (any store counts), by an AMO
or by another bus master. -/
def Breaks (p : Word) (t : Tracked β) : SocInput β → Prop
  | .cycle pick => t.iss.ExecutesSc bus pick ∨ (∃ a, t.iss.access bus pick = some (.store, a)) ∨
      ∃ a, t.iss.access bus pick = some (.amo, a) ∧ Overlaps a 4 p
  | .master a n _ => Overlaps a n p
  | _ => False

/-- An LR.W from the word at `p` has completed, and since then no SC.W has been executed and the
word has not been written. -/
def Reserved (p : Word) (t : Tracked β) (is : List (SocInput β)) : Prop :=
  (trackedMachine bus).Last (LrCompletes bus p) (Breaks bus p) t is

/-- The step is none of those that the reservation does not see: an LR.W that the MMU refuses, an
AMO or a write of another master to the reserved word, an SC.W whose address no longer maps to
it. -/
def KeepsReservation (t : Tracked β) : SocInput β → Prop
  | .cycle pick =>
    (∀ d env, t.iss.issue bus pick = some (d, env) → d.type.memKind = some .lr →
      (accessPaddr bus pick t.iss.state d { env with memFault := false }).isSome) ∧
    (∀ a, t.iss.access bus pick = some (.amo, a) → t.iss.state.lrSc.valid →
      ∀ p, t.lastLr = some p → ¬ Overlaps a 4 p) ∧
    ∀ a, t.iss.access bus pick = some (.sc, a) → t.lastLr = some a
  | .master a n _ => t.iss.state.lrSc.valid → ∀ p, t.lastLr = some p → ¬ Overlaps a n p
  | _ => True

end

/-! ### One iteration -/

section

variable {β : Type*} {bus : PhysBus β} {pick : Tlb → ℕ} {iss : ISS β} {d : DecodedInstr}
  {env : Env β}

theorem ISS.access_of_issue_none (h : iss.issue bus pick = none) :
    iss.access bus pick = none := by
  rw [access, h]

theorem ISS.access_iff (h : iss.issue bus pick = some (d, env)) {kind : MemKind} {p : Word} :
    iss.access bus pick = some (kind, p) ↔ AccessAligned iss.state d ∧
      d.type.memKind = some kind ∧
      accessPaddr bus pick iss.state d { env with memFault := false } = some p := by
  unfold access AccessAligned
  rw [h]
  dsimp only
  by_cases ha : accessAddr iss.state d &&& d.type.alignMask = 0
  · rw [if_pos ha]
    cases d.type.memKind with
    | none => simp
    | some k =>
      cases accessPaddr bus pick iss.state d { env with memFault := false } with
      | none => simp
      | some q => simp [ha]
  · rw [if_neg ha]
    exact iff_of_false (by simp) fun h => ha h.1

theorem ISS.executesSc_iff (h : iss.issue bus pick = some (d, env)) :
    iss.ExecutesSc bus pick ↔ d.type.memKind = some .sc ∧ AccessAligned iss.state d := by
  unfold ExecutesSc
  rw [h]
  constructor
  · rintro ⟨d', env', hd, hsc⟩
    cases hd
    exact hsc
  · intro hsc
    exact ⟨d, env, rfl, hsc⟩

/-- An instruction whose accesses are not refused and that raises no exception does not trap. -/
theorem ISS.trap_of_executed (h : iss.issue bus pick = some (d, env))
    (hm : (iss.executed bus pick d env).mem.memFault = false)
    (hx : (iss.executed bus pick d env).res.exception = false) :
    (iss.iterate bus pick).2.trap = none := by
  rw [(iterate_of_issue h).2, stepInsn_retired d (Bool.eq_false_iff.1 hm)]
  exact (retire_spec d _).2.2.2.2 (.inl hx)

theorem ISS.iterate_lrSc (h : iss.issue bus pick = some (d, env)) :
    (iss.iterate bus pick).1.state.lrSc = (iss.executed bus pick d env).cpu.lrSc := by
  rw [(iterate_of_issue h).2]
  exact (stepInsn_spec d).2.1

/-- The state that `execute` is called with differs in `next_pc` only, which it overwrites. -/
theorem ISS.executed_accesses (bus : PhysBus β) (pick : Tlb → ℕ) (iss : ISS β) (d : DecodedInstr)
    (env : Env β) :
    Accesses (issMemIf bus pick) iss.state d { env with memFault := false }
      (iss.executed bus pick d env) :=
  execute_accesses (issMemIf bus pick) iss.state d { env with memFault := false }

end

section

variable {β : Type*} {bus : PhysBus β} {pick : Tlb → ℕ} {t : Tracked β}

/-- An instruction breaks the reservation only if it is an SC.W, a store or an AMO to the word. -/
theorem not_breaks_cycle {d : DecodedInstr} {env : Env β}
    (hissue : t.iss.issue bus pick = some (d, env)) (hk : KeepsReservation bus t (.cycle pick))
    (hv : t.iss.state.lrSc.valid)
    (hd : AccessAligned t.iss.state d → d.type.memKind ≠ some .sc ∧ d.type.memKind ≠ some .store)
    {p : Word} (hp : t.lastLr = some p) : ¬ Breaks bus p t (.cycle pick) := by
  rintro (hsc | ⟨a, hst⟩ | ⟨a, hamo, ho⟩)
  · obtain ⟨hkind, ha⟩ := (ISS.executesSc_iff hissue).1 hsc
    exact (hd ha).1 hkind
  · obtain ⟨ha, hkind, -⟩ := (ISS.access_iff hissue).1 hst
    exact (hd ha).2 hkind
  · exact hk.2.1 a hamo hv p hp ho

/-- When the reservation holds after an iteration, the iteration has completed an LR.W, or the
reservation held before and the iteration does not break it. -/
theorem valid_after_cycle (hk : KeepsReservation bus t (.cycle pick))
    (hv : (t.iss.iterate bus pick).1.state.lrSc.valid) :
    (∃ p, t.iss.access bus pick = some (.lr, p) ∧ (t.iss.iterate bus pick).2.trap = none) ∨
      t.iss.state.lrSc.valid ∧ (∀ p, t.iss.access bus pick ≠ some (.lr, p)) ∧
        ∀ p, t.lastLr = some p → ¬ Breaks bus p t (.cycle pick) := by
  cases hissue : t.iss.issue bus pick with
  | none =>
    have hacc : t.iss.access bus pick = none := ISS.access_of_issue_none hissue
    rw [(ISS.iterate_of_issue_none hissue).2] at hv
    refine .inr ⟨hv, by simp [hacc], fun p _ => ?_⟩
    rintro (⟨d, env, h, -⟩ | ⟨a, h⟩ | ⟨a, h, -⟩)
    · cases hissue.symm.trans h
    · cases hacc.symm.trans h
    · cases hacc.symm.trans h
  | some x =>
    obtain ⟨d, env⟩ := x
    have hx := t.iss.executed_accesses bus pick d env
    have hmem := ISS.trap_of_executed hissue
    rw [ISS.iterate_lrSc hissue] at hv
    -- an instruction other than LR.W that keeps the reservation
    have other (hl : t.iss.state.lrSc.valid) (hlr : d.type.memKind ≠ some .lr)
        (hd : AccessAligned t.iss.state d →
          d.type.memKind ≠ some .sc ∧ d.type.memKind ≠ some .store) :
        t.iss.state.lrSc.valid ∧ (∀ p, t.iss.access bus pick ≠ some (.lr, p)) ∧
          ∀ p, t.lastLr = some p → ¬ Breaks bus p t (.cycle pick) :=
      ⟨hl, fun p h => hlr ((ISS.access_iff hissue).1 h).2.1,
        fun p hp => not_breaks_cycle hissue hk hl hd hp⟩
    generalize t.iss.executed bus pick d env = x at hx hv hmem
    cases hx with
    | load ht =>
      have hl : t.iss.state.lrSc.valid := by simpa [done] using hv
      exact .inr (other hl (by simp [ht]) fun _ => by simp [ht])
    | store => cases hv
    | @lr v m' ht ha hr =>
      have hsome := hk.1 d env hissue ht
      obtain ⟨p, hp⟩ := Option.isSome_iff_exists.1 hsome
      refine .inl ⟨p, (ISS.access_iff hissue).2 ⟨ha, ht, hp⟩, hmem ?_ rfl⟩
      change memRead bus pick t.iss.state (accessAddr t.iss.state d) 4
        { env with memFault := false } = _ at hr
      have hflag : (memRead bus pick t.iss.state (accessAddr t.iss.state d) 4
        { env with memFault := false }).2.memFault = _ := memRead_memFault _ _
      simp only [accessPaddr, ht] at hp
      rw [hr, hp] at hflag
      exact hflag
    | scDone => cases hv
    | scFailed => cases hv
    | amo ht =>
      have hl : t.iss.state.lrSc.valid := by simpa [done] using hv
      exact .inr (other hl (by simp [ht]) fun _ => by simp [ht])
    | quiet hr hm ht =>
      rw [hr] at hv
      by_cases hkind : d.type.memKind = none
      · exact .inr (other hv (by simp [hkind]) fun _ => by simp [hkind])
      · have hmis := (ht hkind).1
        refine .inr ⟨hv, fun p h => hmis ((ISS.access_iff hissue).1 h).1, fun p hp => ?_⟩
        exact not_breaks_cycle hissue hk hv (fun ha => absurd ha hmis) hp

theorem lastLrNext_of_lr {p : Word} (h : t.iss.access bus pick = some (.lr, p)) :
    t.lastLrNext bus (.cycle pick) = some p := by
  simp only [Tracked.lastLrNext, h]

theorem lastLrNext_of_not_lr (h : ∀ p, t.iss.access bus pick ≠ some (.lr, p)) :
    t.lastLrNext bus (.cycle pick) = t.lastLr := by
  unfold Tracked.lastLrNext
  dsimp only
  split
  next p hp => exact absurd hp (h p)
  · rfl

/-- **The reservation is never stale** in a run whose steps all keep it. -/
theorem valid_reserved {t : Tracked β} (h₀ : t.iss.state.lrSc.valid = false)
    {is : List (SocInput β)} (h : (trackedMachine bus).Along (KeepsReservation bus) t is)
    (hv : ((trackedMachine bus).run t is).iss.state.lrSc.valid) :
    ∃ p, ((trackedMachine bus).run t is).lastLr = some p ∧ Reserved bus p t is := by
  induction is using List.reverseRecOn with
  | nil => exact absurd (h₀.symm.trans hv) Bool.false_ne_true
  | append_singleton is i ih =>
    obtain ⟨his, hi⟩ := Machine.along_snoc.1 h
    rw [Machine.run_snoc] at hv ⊢
    -- a step that keeps the reservation, the ghost and the word
    have keep (hv' : ((trackedMachine bus).run t is).iss.state.lrSc.valid)
        (hg : ((trackedMachine bus).next ((trackedMachine bus).run t is) i).lastLr =
          ((trackedMachine bus).run t is).lastLr)
        (hb : ∀ p, ((trackedMachine bus).run t is).lastLr = some p →
          ¬ Breaks bus p ((trackedMachine bus).run t is) i) :
        ∃ p, ((trackedMachine bus).next ((trackedMachine bus).run t is) i).lastLr = some p ∧
          Reserved bus p t (is ++ [i]) := by
      obtain ⟨p, hp, hres⟩ := ih his hv'
      exact ⟨p, hg.trans hp, Machine.Last.snoc (hb p hp) hres⟩
    cases i with
    | cycle pick =>
      rcases valid_after_cycle hi hv with ⟨p, hacc, htrap⟩ | ⟨hv', hlr, hb⟩
      · exact ⟨p, lastLrNext_of_lr hacc, Machine.Last.now ⟨pick, rfl, hacc, htrap⟩⟩
      · exact keep hv' (lastLrNext_of_not_lr hlr) hb
    | master a n f => exact keep hv rfl fun p hp => hi hv p hp
    | line bit v => exact keep hv rfl fun _ _ => id
    | halt => exact keep hv rfl fun _ _ => id
    | resume => exact keep hv rfl fun _ _ => id
    | step => exact keep hv rfl fun _ _ => id

/-! ### SC.W -/

/-- An SC.W that reports success has written, under its reservation. -/
theorem ISS.ReportsSuccess.access {iss : ISS β} (h : iss.ReportsSuccess bus pick) :
    iss.state.lrSc.valid ∧ ∃ p, iss.access bus pick = some (.sc, p) := by
  obtain ⟨d, hd, ht, hrd, htrap, hzero⟩ := h
  cases hissue : iss.issue bus pick with
  | none =>
    rw [(ISS.iterate_of_issue_none hissue).1] at hd
    cases hd
  | some x =>
    obtain ⟨d', env⟩ := x
    have hkind : d.type.memKind = some .sc := by rw [ht]; rfl
    have hiter := (ISS.iterate_of_issue hissue).2
    rw [hiter] at hd htrap hzero
    obtain ⟨hregs, -, hinsn⟩ := @ISS.stepInsn_spec _ bus pick { iss with env } d'
    obtain rfl : d' = d := Option.some.inj (hinsn.symm.trans hd)
    obtain ⟨hm, hres⟩ := ISS.of_stepInsn_trap_none d' htrap
    have hx := iss.executed_accesses bus pick d' env
    have hrdv : (iss.executed bus pick d' env).cpu.regs (d'.rd.setWidth 5) = 0 := by
      rw [CPUState.getReg, if_neg hrd, hregs] at hzero
      exact hzero
    change (iss.executed bus pick d' env).mem.memFault = false at hm
    change (iss.executed bus pick d' env).res.exception = false ∨
      (iss.executed bus pick d' env).res.cause = causeBreakpoint at hres
    generalize iss.executed bus pick d' env = y at hx hm hres hrdv
    cases hx with
    | scDone _ ha hc =>
      have hvalid : iss.state.lrSc.valid := (Bool.and_eq_true_iff.1 hc).1
      have hflag : (memWrite bus pick iss.state (accessAddr iss.state d')
        (iss.state.getReg d'.rs2) 4 { env with memFault := false }).memFault = _ :=
          memWrite_memFault _ _ _
      have hnone := hflag.symm.trans hm
      rw [Bool.or_false] at hnone
      obtain ⟨p, hp⟩ := Option.isSome_iff_exists.1 (Option.isNone_eq_false_iff.1 hnone)
      refine ⟨hvalid, p, (ISS.access_iff hissue).2 ⟨ha, hkind, ?_⟩⟩
      simp only [accessPaddr, hkind, hc, if_true, hp]
    | scFailed =>
      change ((iss.state.falling d').setReg d'.rd 1).regs (d'.rd.setWidth 5) = 0 at hrdv
      rw [CPUState.setReg_regs_self _ _ _ hrd] at hrdv
      exact absurd hrdv (by decide)
    | quiet _ _ hq =>
      obtain ⟨-, hexc, hcause⟩ := hq (by simp [hkind])
      rcases hres with hres | hres
      · exact absurd (hres.symm.trans hexc) Bool.false_ne_true
      · exact absurd hres hcause
    | load ht' | store ht' | lr ht' | amo ht' => cases hkind.symm.trans ht'

end

/-- **LR/SC loses no update** in a run whose steps all keep the reservation: an SC.W that reports
success writes a word that an earlier LR.W has read, and that nobody has written since. -/
theorem sc_success_reserved {β : Type*} (bus : PhysBus β) (iss : ISS β)
    (h₀ : iss.state.lrSc.valid = false) (is : List (SocInput β)) (pick : Tlb → ℕ)
    (h : (trackedMachine bus).Along (KeepsReservation bus) { iss } (is ++ [.cycle pick]))
    (hsc : ((trackedMachine bus).run { iss } is).iss.ReportsSuccess bus pick) :
    ∃ p, ((trackedMachine bus).run { iss } is).iss.access bus pick = some (.sc, p) ∧
      Reserved bus p { iss } is := by
  obtain ⟨his, hi⟩ := Machine.along_snoc.1 h
  obtain ⟨hv, p, hp⟩ := hsc.access
  obtain ⟨q, hq, hres⟩ := valid_reserved h₀ his hv
  have hpq : q = p := Option.some.inj (hq.symm.trans (hi.2.2 p hp))
  exact ⟨p, hp, hpq ▸ hres⟩

/-- M-mode is about to execute `lr.w x10, (x1)` and then `sc.w x11, x2, (x1)`. -/
def lrScProgram : ISS Ram where
  state := { regs := fun _ => 0x300, pc := 0x100 }
  env :=
    { bus :=
        let m : Ram := Bytes.writeLE (fun _ => 0) (0x100 : Word) (0x1000A52F : Word) 4
        Bytes.writeLE m (0x104 : Word) (0x1820A5AF : Word) 4 }

theorem sc_success_reserved_lr :
    ∃ p, ((trackedMachine plainRam).run { iss := lrScProgram } [.cycle fun _ => 0]).iss.access
        plainRam (fun _ => 0) = some (.sc, p) ∧
      Reserved plainRam p { iss := lrScProgram } [.cycle fun _ => 0] := by
  refine sc_success_reserved plainRam lrScProgram rfl [.cycle fun _ => 0] (fun _ => 0)
    ⟨⟨?_, ?_, ?_⟩, ⟨?_, ?_, ?_⟩, trivial⟩
    ⟨decode 0x1820A5AF, rfl, rfl, by decide, rfl, rfl⟩
  · rintro d env ⟨⟩ -
    rfl
  · rintro a ⟨⟩
  · rintro a ⟨⟩
  · rintro d env ⟨⟩ ⟨⟩
  · rintro a ⟨⟩
  · rintro a ⟨⟩
    rfl

/-- A DMA write to the word between LR.W and SC.W goes unnoticed. -/
theorem not_reserved_dma :
    ¬ ∀ (iss : ISS Ram) (is : List (SocInput Ram)) (pick : Tlb → ℕ),
      iss.state.lrSc.valid = false →
      ((trackedMachine plainRam).run { iss } is).iss.ReportsSuccess plainRam pick →
      ∃ p, ((trackedMachine plainRam).run { iss } is).iss.access plainRam pick = some (.sc, p) ∧
        Reserved plainRam p { iss } is := by
  intro h
  obtain ⟨p, hp, pre, i, post, his, hlr, hpost⟩ := h lrScProgram
    [.cycle fun _ => 0, .master 0x300 4 fun m => Bytes.writeLE m (0x300 : Word) (7 : Word) 4]
    (fun _ => 0) rfl ⟨decode 0x1820A5AF, rfl, rfl, by decide, rfl, rfl⟩
  obtain rfl : (0x300 : Word) = p := by
    cases hp
    rfl
  rcases pre with _ | ⟨j, _ | ⟨j', pre⟩⟩
  · cases his
    exact hpost.1 ⟨0, by decide, 0, by decide, rfl⟩
  · cases his
    obtain ⟨pick, hpick, -⟩ := hlr
    cases hpick
  · simp at his

end VirtualSoC
