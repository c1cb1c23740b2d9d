import VirtualSoC.Cpu.Exceptions
import VirtualSoC.Cpu.RamBus

/-!
# Single steps of the debugger

`ISS::step` releases the loop for one step: an instruction is completed or a trap is taken, and the
loop stops with `pc` at the next instruction or at the handler (`SingleSteps`).

`single_step_` is looked at where an iteration ends normally.  The traps for an interrupt, for a
misaligned or refused fetch and for a refused data access start the next iteration before that
place, and so does the stop at an EBREAK, with `pc` still there.  All other iterations are single
steps (`singleSteps_iff`).
-/

namespace VirtualSoC

/-- The debugger leaves the core alone. -/
def Input.Undisturbed {β : Type*} : Input β → Prop
  | .cycle _ | .line .. | .world _ => True
  | .halt | .resume | .step => False

/-- The input comes from a device. -/
def Input.FromDevice {β : Type*} : Input β → Prop
  | .line .. | .world _ => True
  | _ => False

section

variable {β : Type*} (bus : PhysBus β)

/-- The architectural transition of a step: a completed instruction is `some none`, a trap that is
taken is `some` of its cause. -/
def ISS.transition (iss : ISS β) : Input β → Option (Option Word)
  | .cycle pick =>
    let (next, e) := iss.iterate bus pick
    if e.trap.isSome then some e.trap
    -- a WFI is completed when its wait is over
    else if iss.inWfi ∨ e.insn.isSome ∧ ¬ next.inWfi then some none
    else none
  | _ => none

/-- The transitions of a run. -/
def ISS.transitions (iss : ISS β) (is : List (Input β)) : List (Option Word) :=
  (issMachine bus).log (ISS.transition bus) iss is

/-- `pc` is where the transition leads: to the next instruction, or to the handler in the mode that
the trap has entered. -/
def Landed (s : CPUState) : Option Word → Prop
  | none => s.pc = s.nextPc
  | some cause => s.pc = trapTarget (if s.priv = prvS then s.csr.stvec else s.csr.mtvec) cause

/-- The loop has made exactly one transition and has stopped where this leads. -/
def SteppedOnce (t : ISS β) (is : List (Input β)) : Prop :=
  ∃ tr, t.transitions bus is = [tr] ∧ ((issMachine bus).run t is).halted ∧
    Landed ((issMachine bus).run t is).state tr

/-- Whatever the devices do, the iteration and what follows it until the debugger comes back are a
single step. -/
structure SingleSteps (t : ISS β) (pick : Tlb → ℕ) : Prop where
  /-- There is one transition, or none as yet when a WFI waits. -/
  once : ∀ is, (∀ i ∈ is, i.Undisturbed) →
    ((issMachine bus).run t (.cycle pick :: is)).inWfi ∧ t.transitions bus (.cycle pick :: is) = [] ∨
      SteppedOnce bus t (.cycle pick :: is)
  /-- A wait is over with the next iteration. -/
  stops : ∀ is pick', (∀ i ∈ is, i.Undisturbed) →
    SteppedOnce bus t (.cycle pick :: (is ++ [.cycle pick']))

/-- The iteration goes on with a WFI, or executes an instruction that does not stop the loop and
whose accesses, if any, the MMU allows. -/
def Steppable (t : ISS β) (pick : Tlb → ℕ) : Prop :=
  t.inWfi ∨ ∃ d env, t.issue bus pick = some (d, env) ∧
    ¬ AccessRefused bus pick t.state d { env with memFault := false } ∧
      ¬ (d.type = .ebreak ∧ t.stopOnEbreak)

end

section

variable {β : Type*} {bus : PhysBus β} {pick : Tlb → ℕ} {iss t : ISS β} {is : List (Input β)}

/-- The transition of an iteration, from its result. -/
theorem transition_of_iterate {x : ISS β × Event} (h : t.iterate bus pick = x) :
    t.transition bus (.cycle pick) =
      if x.2.trap.isSome then some x.2.trap
      else if t.inWfi ∨ x.2.insn.isSome ∧ ¬ x.1.inWfi then some none
      else none := by
  simp only [ISS.transition, h]

theorem next_of_iterate {x : ISS β × Event} (h : t.iterate bus pick = x) :
    (issMachine bus).next t (.cycle pick) = x.1 :=
  congrArg Prod.fst h

/-! ### The stopped loop -/

/-- The loop has stopped where the transition leads. -/
structure Stopped (iss : ISS β) (tr : Option Word) : Prop where
  halted : iss.halted
  inWfi : iss.inWfi = false
  landed : Landed iss.state tr

theorem iterate_halted (hw : iss.inWfi = false) (hh : iss.halted) :
    iss.iterate bus pick = (iss, {}) := by
  unfold ISS.iterate
  rw [hw, hh]
  rfl

theorem landed_setHwBit {s : CPUState} {tr : Option Word} (bit : ℕ) (v : Bool) :
    Landed { s with csr := s.csr.setHwBit bit v } tr ↔ Landed s tr := by
  unfold CSRFile.setHwBit
  cases tr with
  | none => exact Iff.rfl
  | some cause =>
    split
    · exact Iff.rfl
    · exact Iff.rfl

variable (bus) in
/-- A stopped loop makes no transition, and stays where it is. -/
theorem Stopped.step {tr : Option Word} (h : Stopped iss tr) {i : Input β} (hi : i.Undisturbed) :
    iss.transition bus i = none ∧ Stopped ((issMachine bus).next iss i) tr := by
  cases i with
  | cycle pick =>
    have hiter : iss.iterate bus pick = (iss, {}) := iterate_halted h.inWfi h.halted
    rw [next_of_iterate hiter, transition_of_iterate hiter, h.inWfi]
    exact ⟨rfl, h⟩
  | line bit v => exact ⟨rfl, h.halted, h.inWfi, (landed_setHwBit bit v).2 h.landed⟩
  | world f => exact ⟨rfl, h.halted, h.inWfi, h.landed⟩
  | halt | resume | step => exact hi.elim

variable (bus) in
theorem Stopped.run {tr : Option Word} (h : Stopped iss tr) (his : ∀ i ∈ is, i.Undisturbed) :
    iss.transitions bus is = [] ∧ Stopped ((issMachine bus).run iss is) tr := by
  induction is generalizing iss with
  | nil => exact ⟨rfl, h⟩
  | cons i is ih =>
    obtain ⟨hnone, hnext⟩ := h.step bus (his i List.mem_cons_self)
    obtain ⟨hlog, hstopped⟩ := ih hnext fun j hj => his j (List.mem_cons_of_mem i hj)
    refine ⟨?_, hstopped⟩
    unfold ISS.transitions at *
    rw [Machine.log, hnone, hlog]
    rfl

/-- A run that begins with the transition into a stopped loop. -/
theorem SteppedOnce.of_stopped {i : Input β} {tr : Option Word} (htr : t.transition bus i = some tr)
    (hnext : Stopped ((issMachine bus).next t i) tr) (his : ∀ i ∈ is, i.Undisturbed) :
    SteppedOnce bus t (i :: is) := by
  obtain ⟨hlog, hstopped⟩ := hnext.run bus his
  refine ⟨tr, ?_, hstopped.halted, hstopped.landed⟩
  unfold ISS.transitions at *
  rw [Machine.log, htr, hlog]
  rfl

/-! ### A waiting WFI -/

/-- What is left of an iteration whose WFI waits is a single step. -/
theorem steppedOnce_wake (hw : t.inWfi) (hs : t.singleStep) (his : ∀ i ∈ is, i.Undisturbed) :
    SteppedOnce bus t (.cycle pick :: is) := by
  have hiter : t.iterate bus pick = (ISS.finish bus { t with inWfi := false } {}, {}) := if_pos hw
  have htr : t.transition bus (.cycle pick) = some none := by
    rw [transition_of_iterate hiter]
    exact (if_neg Bool.false_ne_true).trans (if_pos (.inl hw))
  refine .of_stopped htr ?_ his
  rw [next_of_iterate hiter]
  exact ⟨Bool.or_eq_true_iff.2 (.inl hs), rfl, rfl⟩

theorem waiting_run (hw : t.inWfi) (hs : t.singleStep) (his : ∀ i ∈ is, i.Undisturbed) :
    ((issMachine bus).run t is).inWfi ∧ t.transitions bus is = [] ∨ SteppedOnce bus t is := by
  induction is generalizing t with
  | nil => exact .inl ⟨hw, rfl⟩
  | cons i is ih =>
    have his' : ∀ j ∈ is, j.Undisturbed := fun j hj => his j (List.mem_cons_of_mem i hj)
    cases i with
    | cycle pick => exact .inr (steppedOnce_wake hw hs his')
    | line bit v => exact ih (t := (issMachine bus).next t (.line bit v)) hw hs his'
    | world f => exact ih (t := (issMachine bus).next t (.world f)) hw hs his'
    | halt | resume | step => exact (his _ List.mem_cons_self).elim

/-! A run that begins with a step that is no transition. -/

theorem transitions_cons_of_none {i : Input β} (htr : t.transition bus i = none) :
    t.transitions bus (i :: is) = ((issMachine bus).next t i).transitions bus is := by
  unfold ISS.transitions
  rw [Machine.log, htr]
  rfl

theorem steppedOnce_cons_iff {i : Input β} (htr : t.transition bus i = none) :
    SteppedOnce bus t (i :: is) ↔ SteppedOnce bus ((issMachine bus).next t i) is := by
  unfold SteppedOnce
  rw [transitions_cons_of_none htr]
  rfl

/-! ### The iteration -/

theorem takeTrap_nextPc (s : CPUState) (cause tval : Word) :
    (takeTrap s cause tval).nextPc =
      trapTarget (if (takeTrap s cause tval).priv = prvS then (takeTrap s cause tval).csr.stvec
        else (takeTrap s cause tval).csr.mtvec) cause := by
  by_cases h : trapDelegated s cause
  · rw [takeTrap, if_pos h]
    rfl
  · rw [takeTrap, if_neg h]
    rfl

/-- An instruction that retires waits in WFI, stops the loop where its transition leads, or is an
EBREAK at which the loop stops. -/
theorem retire_cases {r : ExecResult} {d : DecodedInstr} (hw : iss.inWfi = false)
    (hs : iss.singleStep)
    (hb : ¬ (r.exception ∧ r.cause = causeBreakpoint ∧ iss.stopOnEbreak)) :
    (iss.retire bus r d).1.inWfi ∧ (iss.retire bus r d).1.singleStep ∧
        (iss.retire bus r d).2.trap = none ∨
      Stopped (iss.retire bus r d).1 (iss.retire bus r d).2.trap := by
  unfold ISS.retire
  dsimp only
  rw [if_neg hb]
  split
  · exact .inr ⟨Bool.or_eq_true_iff.2 (.inl hs), hw, takeTrap_nextPc ..⟩
  · split
    · exact .inl ⟨rfl, hs, rfl⟩
    · exact .inr ⟨Bool.or_eq_true_iff.2 (.inl hs), hw, rfl⟩

/-- After an exception `next_pc` is that of the next instruction, and `pc` has not moved. -/
theorem Leaves.pc_ne_nextPc {σ : Type*} {s : CPUState} {d : DecodedInstr} {x : Executed σ}
    (h : Leaves s d x) (hexc : x.res.exception) : x.cpu.pc ≠ x.cpu.nextPc := by
  intro heq
  have heff := h.effect
  rw [hexc] at heff
  cases heff with
  | seq _ _ hn =>
    rw [hn, h.pc, left_eq_add] at heq
    unfold DecodedInstr.instrLen at heq
    split at heq
    · cases heq
    · cases heq

section Issue

variable {d : DecodedInstr} {env : Env β}

variable (bus pick t d env) in
/-- What `execute` raises for the instruction, and whether its accesses are refused. -/
theorem executed_spec :
    ((t.executed bus pick d env).mem.memFault ↔
      AccessRefused bus pick t.state d { env with memFault := false }) ∧
    ((t.executed bus pick d env).res.exception ∧
      (t.executed bus pick d env).res.cause = causeBreakpoint ↔ d.type = .ebreak) := by
  have hout := execute_outcome (issMemIf bus pick)
    (t.state.fallThrough (t.state.pc + d.instrLen)) d { env with memFault := false }
  refine ⟨memFault_execute_iff rfl, fun h => (hout.breakpoint h.1).1 h.2, fun h => ?_⟩
  have hexc := hout.exception.2 (by simp [RaisesException, h])
  exact ⟨hexc, (hout.breakpoint hexc).2 h⟩

variable (hissue : t.issue bus pick = some (d, env))

include hissue

theorem inWfi_of_issue : t.inWfi = false := by
  unfold ISS.issue at hissue
  split at hissue
  · cases hissue
  next h => exact Bool.eq_false_iff.2 fun hw => h (.inl hw)

/-- The iteration when no access is refused: it retires the instruction in a state `u`. -/
theorem iterate_of_allowed
    (hok : ¬ AccessRefused bus pick t.state d { env with memFault := false }) :
    ∃ (u : ISS β) (r : ExecResult), t.iterate bus pick = u.retire bus r d ∧ u.inWfi = false ∧
      u.singleStep = t.singleStep ∧
      (r.exception ∧ r.cause = causeBreakpoint ∧ u.stopOnEbreak ↔
        d.type = .ebreak ∧ t.stopOnEbreak) ∧
      (r.exception → u.state.pc ≠ u.state.nextPc) := by
  obtain ⟨hfault, hbreak⟩ := executed_spec bus pick t d env
  have hleaves : Leaves (t.state.fallThrough (t.state.pc + d.instrLen)) d
      (t.executed bus pick d env) := execute_leaves ..
  have hw : t.inWfi = false := inWfi_of_issue hissue
  refine ⟨{ t with
      state := (t.executed bus pick d env).cpu
      env := { (t.executed bus pick d env).mem with memFault := false } },
    (t.executed bus pick d env).res, ?_, hw, rfl, ?_, ?_⟩
  · rw [(ISS.iterate_of_issue hissue).2]
    exact ISS.stepInsn_retired d (hfault.not.2 hok)
  · rw [← and_assoc, hbreak]
  · exact hleaves.pc_ne_nextPc

theorem once_of_issue (hs : t.singleStep)
    (hok : ¬ AccessRefused bus pick t.state d { env with memFault := false })
    (hb : ¬ (d.type = .ebreak ∧ t.stopOnEbreak)) (his : ∀ i ∈ is, i.Undisturbed) :
    ((issMachine bus).run t (.cycle pick :: is)).inWfi ∧
        t.transitions bus (.cycle pick :: is) = [] ∨
      SteppedOnce bus t (.cycle pick :: is) := by
  obtain ⟨u, r, hiter, hw, hus, hstop, -⟩ := iterate_of_allowed hissue hok
  have htr := transition_of_iterate hiter
  have hnext := next_of_iterate hiter
  rw [(ISS.retire_spec d r).2.2.1, inWfi_of_issue hissue] at htr
  rcases retire_cases hw (hus ▸ hs) (hstop.not.2 hb) with ⟨hwait, hsingle, htrap⟩ | hstopped
  · -- the instruction is a WFI
    have hnone : t.transition bus (.cycle pick) = none := by
      rw [htr, htrap, hwait]
      rfl
    rw [← hnext] at hwait hsingle
    rw [steppedOnce_cons_iff hnone, transitions_cons_of_none hnone]
    exact waiting_run hwait hsingle his
  · right
    refine .of_stopped ?_ (hnext ▸ hstopped) his
    rw [htr, hstopped.inWfi]
    split
    · rfl
    next hnotrap =>
      rw [Option.not_isSome_iff_eq_none.1 hnotrap]
      rfl

end Issue

/-! ### Single steps -/

/-- A loop that makes at most one transition and then stops does not wait for ever. -/
theorem stops_of_once (h : ∀ is, (∀ i ∈ is, i.Undisturbed) →
      ((issMachine bus).run t (.cycle pick :: is)).inWfi ∧
          t.transitions bus (.cycle pick :: is) = [] ∨
        SteppedOnce bus t (.cycle pick :: is))
    (pick' : Tlb → ℕ) (his : ∀ i ∈ is, i.Undisturbed) :
    SteppedOnce bus t (.cycle pick :: (is ++ [.cycle pick'])) := by
  have hmore : ∀ i ∈ is ++ [.cycle pick'], i.Undisturbed := by
    intro i hi
    rcases List.mem_append.1 hi with hi | hi
    · exact his i hi
    · rw [List.mem_singleton.1 hi]
      trivial
  refine (h _ hmore).resolve_left ?_
  rintro ⟨hwait, -⟩
  rw [← List.cons_append, Machine.run_snoc] at hwait
  rcases h is his with ⟨hw, -⟩ | ⟨tr, -, hhalt, -⟩
  · rw [next_of_iterate (if_pos hw)] at hwait
    cases hwait
  · cases hw : ((issMachine bus).run t (.cycle pick :: is)).inWfi with
    | true =>
      rw [next_of_iterate (if_pos hw)] at hwait
      cases hwait
    | false =>
      rw [next_of_iterate (iterate_halted hw hhalt), hw] at hwait
      cases hwait

theorem singleSteps_of_steppable (hs : t.singleStep) (h : Steppable bus t pick) :
    SingleSteps bus t pick := by
  have honce : ∀ is, (∀ i ∈ is, i.Undisturbed) →
      ((issMachine bus).run t (.cycle pick :: is)).inWfi ∧
          t.transitions bus (.cycle pick :: is) = [] ∨
        SteppedOnce bus t (.cycle pick :: is) := by
    intro is his
    rcases h with hw | ⟨d, env, hissue, hok, hb⟩
    · exact .inr (steppedOnce_wake hw hs his)
    · exact once_of_issue hissue hs hok hb his
  exact ⟨honce, fun is pick' his => stops_of_once honce pick' his⟩

/-- After the iteration of a single step the loop waits or has stopped. -/
theorem SingleSteps.waits_or_stops (h : SingleSteps bus t pick) {x : ISS β × Event}
    (hiter : t.iterate bus pick = x) : x.1.inWfi ∨ x.1.halted := by
  have hrun : (issMachine bus).run t [.cycle pick] = x.1 := next_of_iterate hiter
  rcases h.once [] nofun with ⟨hwait, -⟩ | ⟨tr, -, hstop, -⟩
  · exact .inl (hrun ▸ hwait)
  · exact .inr (hrun ▸ hstop)

/-- The iteration of a single step does not stop at an EBREAK, which would leave `pc` there. -/
theorem SingleSteps.not_ebreak (h : SingleSteps bus t pick) {d : DecodedInstr} {env : Env β}
    (hissue : t.issue bus pick = some (d, env))
    (hok : ¬ AccessRefused bus pick t.state d { env with memFault := false }) :
    ¬ (d.type = .ebreak ∧ t.stopOnEbreak) := by
  intro hebreak
  obtain ⟨u, r, hiter, huw, -, hstop, hpc⟩ := iterate_of_allowed hissue hok
  have hexc := hstop.2 hebreak
  rw [ISS.retire, if_pos hexc] at hiter
  have htr : t.transition bus (.cycle pick) = some none := by
    rw [transition_of_iterate hiter]
    exact (if_neg Bool.false_ne_true).trans
      (if_pos (.inr ⟨rfl, fun h => Bool.false_ne_true (huw.symm.trans h)⟩))
  have hrun := next_of_iterate hiter
  rcases h.once [] nofun with ⟨hwait, -⟩ | ⟨tr, htrs, -, hlanded⟩
  · rw [Machine.run, hrun] at hwait
    exact Bool.false_ne_true (huw.symm.trans hwait)
  · have htr' : [none] = [tr] := by
      rw [← htrs, ISS.transitions, Machine.log, htr]
      rfl
    cases htr'
    rw [Machine.run, hrun] at hlanded
    exact hpc hexc.1 hlanded

/-- The other ways out of an iteration leave the loop running, or `pc` at the EBREAK. -/
theorem steppable_of_singleSteps (hhalt : t.halted = false) (h : SingleSteps bus t pick) :
    Steppable bus t pick := by
  -- a trap that is entered at once does not stop the loop
  have hrunning {x : ISS β × Event} (hiter : t.iterate bus pick = x) (hw : x.1.inWfi = false)
      (hh : x.1.halted = false) : False := by
    rcases h.waits_or_stops hiter with hwait | hstop
    · exact Bool.false_ne_true (hw.symm.trans hwait)
    · exact Bool.false_ne_true (hh.symm.trans hstop)
  cases hw : t.inWfi with
  | true => exact .inl hw
  | false =>
    cases hissue : t.issue bus pick with
    | none =>
      exfalso
      have hidle := ISS.iterate_idle hissue
      generalize hiter : t.iterate bus pick = x at hidle
      cases hidle with
      | wake hwake => exact Bool.false_ne_true (hw.symm.trans hwake)
      | halted _ hh => exact Bool.false_ne_true (hhalt.symm.trans hh)
      | trap => exact hrunning hiter hw hhalt
    | some x =>
      obtain ⟨d, env⟩ := x
      have hok : ¬ AccessRefused bus pick t.state d { env with memFault := false } := by
        intro href
        have hfault : (ISS.executed bus pick { t with env } d env).mem.memFault :=
          (executed_spec bus pick t d env).1.2 href
        have htrap := (ISS.iterate_of_issue hissue).2.trans (ISS.stepInsn_refused d hfault)
        exact hrunning htrap hw hhalt
      exact .inr ⟨d, env, hissue, hok, h.not_ebreak hissue hok⟩

end

end VirtualSoC
