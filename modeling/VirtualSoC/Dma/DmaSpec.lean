import VirtualSoC.Dma.DmaEngine

/-!
# Start commands and transfers

The starts of a run are the writes of the control register with bit 0 set, the transfers are what
the thread latches.  `executed_once_run` says when each start is executed once, with its own
parameters, and the done bit does not run ahead of it.
-/

namespace VirtualSoC

/-- What a transfer is asked to do. -/
structure DmaParams where
  src : Word
  dst : Word
  count : Word
  deriving DecidableEq, Repr

/-- The transfer that the registers describe. -/
def DmaEngine.params (e : DmaEngine) : DmaParams := ⟨e.srcAddr, e.dstAddr, e.byteCount⟩

namespace DmaInput

/-- The register write that the input is. -/
def write? : DmaInput → Option (Word × Word)
  | .transport payload _ =>
    if payload.command = .write then
      payload.getWord.map fun val => (payload.address.setWidth 32, val)
    else none
  | .resume .. => none

variable (d : Dma) (x : DmaInput)

/-- A start command, with the parameters of that moment. -/
def start : Option DmaParams :=
  match x.write? with
  | some (addr, val) => if addr = 0x0C ∧ val &&& 1 ≠ 0 then some d.engine.params else none
  | none => none

/-- A transfer begins, with the parameters that the thread latches. -/
def begins : Option DmaParams :=
  match d.thread, (dmaMachine.next d x).thread with
  | .waiting, .copying remaining src dst => some ⟨src, dst, remaining⟩
  | _, _ => none

/-- A transfer has finished. -/
def finishes : Option Unit :=
  match d.thread, (dmaMachine.next d x).thread with
  | .copying .., .waiting => some ()
  | _, _ => none

/-- A read of the status register returns `val`. -/
def ReadsStatus (val : Word) : Prop :=
  ∃ (n : ℕ) (payload : Payload n) (fits : 4 ≤ n), x = .transport payload fits ∧
    payload.command ≠ .write ∧ payload.address.setWidth 32 = (0x10 : Word) ∧
    ∃ t : Σ n, Payload n, dmaMachine.out d x = .inl t ∧ t.2.getWord = some val

end DmaInput

namespace Dma

open DmaInput

/-- The start commands of a run from reset. -/
def starts (is : List DmaInput) : List DmaParams := dmaMachine.log (fun d x => x.start d) {} is

/-- The transfers begun. -/
def transfers (is : List DmaInput) : List DmaParams := dmaMachine.log (fun d x => x.begins d) {} is

/-- The transfers finished. -/
def finished (is : List DmaInput) : List Unit := dmaMachine.log (fun d x => x.finishes d) {} is

/-- Every start command is executed once, with its own parameters. -/
structure ExecutedOnce (is : List DmaInput) : Prop where
  /-- Transfers follow the starts, in order and with their parameters. -/
  inOrder : transfers is <+: starts is
  /-- None is missing once the thread has run for every notification. -/
  all : (dmaMachine.run {} is).engine.startEvent = false → transfers is = starts is
  /-- Done is not reported before the last transfer has finished. -/
  notDone : (finished is).length < (starts is).length →
    ∀ (x : DmaInput) (val : Word), x.ReadsStatus (dmaMachine.run {} is) val →
      val.getLsbD 1 = false

end Dma

/-! ### Steps -/

namespace DmaEngine

variable (e : DmaEngine) (addr val : Word)

/-- The registers after a write. -/
def writeReg : DmaEngine := (e.access true addr val).elim e Prod.snd

theorem writeReg_eq : e.writeReg addr val =
    if addr = 0x00 then { e with srcAddr := val }
    else if addr = 0x04 then { e with dstAddr := val }
    else if addr = 0x08 then { e with byteCount := val }
    else if addr = 0x0C then
      { e with ctrl := val, startEvent := e.startEvent ∨ val &&& 1 ≠ 0 }
    else if addr = 0x10 then { e with status := 0, irq := false }
    else e := by
  unfold writeReg access
  simp only [if_true]
  split_ifs <;> rfl

theorem access_read : (e.access false addr val).elim e Prod.snd = e := by
  unfold access
  simp only [Bool.false_eq_true, if_false]
  split_ifs <;> rfl

theorem startEvent_writeReg : (e.writeReg addr val).startEvent = true ↔
    e.startEvent = true ∨ addr = 0x0C ∧ val &&& 1 ≠ 0 := by
  rw [writeReg_eq]
  split_ifs with h0 h4 h8 hC
  · simp [h0]
  · simp [h4]
  · simp [h8]
  · simp [hC]
  · exact ⟨.inl, fun h => h.elim id fun h => absurd h.1 hC⟩
  · exact ⟨.inl, fun h => h.elim id fun h => absurd h.1 hC⟩

/-- Only a write to the status register changes the status, and it clears it. -/
theorem status_writeReg :
    (e.writeReg addr val).status = e.status ∨ (e.writeReg addr val).status = 0 := by
  rw [writeReg_eq]
  split_ifs
  exacts [.inl rfl, .inl rfl, .inl rfl, .inl rfl, .inr rfl, .inl rfl]

/-- The write changes a parameter. -/
def Changes : Prop :=
  addr = 0x00 ∧ val ≠ e.srcAddr ∨ addr = 0x04 ∧ val ≠ e.dstAddr ∨ addr = 0x08 ∧ val ≠ e.byteCount

instance : Decidable (e.Changes addr val) := inferInstanceAs (Decidable (_ ∨ _))

variable {e addr val}

theorem params_writeReg (h : ¬ e.Changes addr val) : (e.writeReg addr val).params = e.params := by
  rw [writeReg_eq]
  split_ifs with h0 h4 h8
  · have hval : val = e.srcAddr := by_contra fun hne => h (.inl ⟨h0, hne⟩)
    rw [hval]
  · have hval : val = e.dstAddr := by_contra fun hne => h (.inr (.inl ⟨h4, hne⟩))
    rw [hval]
  · have hval : val = e.byteCount := by_contra fun hne => h (.inr (.inr ⟨h8, hne⟩))
    rw [hval]
  all_goals rfl

theorem done_writeReg (h : e.status.getLsbD 1 = false) :
    (e.writeReg addr val).status.getLsbD 1 = false := by
  rcases e.status_writeReg addr val with hst | hst
  · rwa [hst]
  · rw [hst]
    rfl

end DmaEngine

namespace Dma

open DmaInput

variable {d : Dma} {x : DmaInput}

/-- A register access does not move the thread, and changes the registers only as a write. -/
theorem next_transport {n : ℕ} (payload : Payload n) (fits : 4 ≤ n) :
    dmaMachine.next d (.transport payload fits) =
      { d with engine := match (DmaInput.transport payload fits).write? with
        | some (addr, val) => d.engine.writeReg addr val
        | none => d.engine } := by
  have hsome : d.engine.bTransport payload =
      some ((d.engine.bTransport payload).get (isSome_regTransport _ _ fits)) :=
    (Option.some_get _).symm
  change ({ d with engine := _ } : Dma) = _
  congr 1
  by_cases hw : payload.command = .write
  · obtain ⟨val, hval⟩ := Payload.exists_getWord payload fits
    rw [write?, if_pos hw, hval]
    exact regTransport_write hw hval hsome
  · rw [write?, if_neg hw]
    exact (regTransport_read hw hsome).trans (DmaEngine.access_read ..)

theorem readsStatus_eq {val : Word} (h : x.ReadsStatus d val) : val = d.engine.status := by
  obtain ⟨n, payload, fits, rfl, hr, haddr, t, hout, hval⟩ := h
  have hacc : d.engine.access false (payload.address.setWidth 32) 0 =
      some (d.engine.status, d.engine) := by
    rw [haddr]
    rfl
  obtain ⟨t', ht', -, hword⟩ := exists_regTransport_read d.engine fits hr hacc
  have ht : t = ⟨n, t'⟩ := by
    refine (Sum.inl.inj hout).symm.trans (congrArg (Sigma.mk n) ?_)
    exact congrArg Prod.fst (Option.get_of_eq_some _ ht')
  subst ht
  exact (Option.some.inj (hword.symm.trans hval)).symm

/-! ### Runs -/

/-- A start comes while no other one is pending or executed and the done bit is clear, and the
parameters are not changed while a start is pending. -/
structure Undisturbed (d : Dma) (x : DmaInput) : Prop where
  start : x.start d ≠ none → d.engine.startEvent = false ∧ d.thread = .waiting ∧
    d.engine.status.getLsbD 1 = false
  params : d.engine.startEvent = true → ∀ w ∈ x.write?, ¬ d.engine.Changes w.1 w.2

instance (d : Dma) (x : DmaInput) : Decidable (Undisturbed d x) :=
  -- the instance that looks at the option: there is one over all pairs of words, too
  have : Decidable (∀ w ∈ x.write?, ¬ d.engine.Changes w.1 w.2) := Option.decidableForallMem _
  decidable_of_iff
    ((x.start d ≠ none → d.engine.startEvent = false ∧ d.thread = .waiting ∧
      d.engine.status.getLsbD 1 = false) ∧
      (d.engine.startEvent = true → ∀ w ∈ x.write?, ¬ d.engine.Changes w.1 w.2))
    ⟨fun h => ⟨h.1, h.2⟩, fun h => ⟨h.start, h.params⟩⟩

/-- What holds of the engine in an undisturbed run, after the starts `ss`, the transfers `ts` and
the ends `fs`. -/
structure Inv (d : Dma) (ss ts : List DmaParams) (fs : List Unit) : Prop where
  starts : ss = ts ++ if d.engine.startEvent then [d.engine.params] else []
  count : ts.length = fs.length + if d.thread = .waiting then 0 else 1
  waiting : d.engine.startEvent = true → d.thread = .waiting
  notDone : d.engine.startEvent = true ∨ d.thread ≠ .waiting → d.engine.status.getLsbD 1 = false

theorem inv_init : Inv {} [] [] [] := ⟨rfl, rfl, nofun, fun _ => rfl⟩

/-- A start while the engine is idle keeps the invariant. -/
theorem Inv.start {addr val : Word} {ss ts : List DmaParams} {fs : List Unit}
    (h : Inv d ss ts fs) (hs : addr = 0x0C ∧ val &&& 1 ≠ 0) (hidle : d.engine.startEvent = false)
    (hwait : d.thread = .waiting) (hclear : d.engine.status.getLsbD 1 = false) :
    Inv { d with engine := d.engine.writeReg addr val } (ss ++ [d.engine.params]) ts fs := by
  have hparams : (d.engine.writeReg addr val).params = d.engine.params := by
    refine DmaEngine.params_writeReg ?_
    rw [DmaEngine.Changes, hs.1]
    simp
  have hstarts := h.starts
  rw [hidle] at hstarts
  refine ⟨?_, h.count, fun _ => hwait, fun _ => DmaEngine.done_writeReg hclear⟩
  dsimp only
  rw [hparams, if_pos ((d.engine.startEvent_writeReg addr val).2 (.inr hs)), hstarts]
  simp

/-- So does any other write, if it does not change the parameters of a pending start. -/
theorem Inv.write {addr val : Word} {ss ts : List DmaParams} {fs : List Unit}
    (h : Inv d ss ts fs) (hs : ¬ (addr = 0x0C ∧ val &&& 1 ≠ 0))
    (hkeep : d.engine.startEvent = true → ¬ d.engine.Changes addr val) :
    Inv { d with engine := d.engine.writeReg addr val } ss ts fs := by
  have hsame : (d.engine.writeReg addr val).startEvent = d.engine.startEvent :=
    Bool.eq_iff_iff.2 ((d.engine.startEvent_writeReg addr val).trans (or_iff_left hs))
  refine ⟨?_, h.count, fun hev => h.waiting (hsame ▸ hev), fun hbusy => ?_⟩
  · dsimp only
    rw [hsame]
    by_cases hev : d.engine.startEvent = true
    · rw [DmaEngine.params_writeReg (hkeep hev)]
      exact h.starts
    · have hstarts := h.starts
      rwa [if_neg hev] at hstarts ⊢
  · dsimp only at hbusy
    rw [hsame] at hbusy
    exact DmaEngine.done_writeReg (h.notDone hbusy)

theorem Inv.transport {n : ℕ} {payload : Payload n} {fits : 4 ≤ n} {ss ts : List DmaParams}
    {fs : List Unit} (h : Inv d ss ts fs) (hu : Undisturbed d (.transport payload fits)) :
    Inv (dmaMachine.next d (.transport payload fits))
      (ss ++ ((DmaInput.transport payload fits).start d).toList) ts fs := by
  rw [next_transport]
  cases hw : (DmaInput.transport payload fits).write? with
  | none =>
    have hstart : (DmaInput.transport payload fits).start d = none := by rw [DmaInput.start, hw]
    rw [hstart]
    simpa using h
  | some w =>
    obtain ⟨addr, val⟩ := w
    by_cases hs : addr = 0x0C ∧ val &&& 1 ≠ 0
    · have hstart : (DmaInput.transport payload fits).start d = some d.engine.params := by
        rw [DmaInput.start, hw]
        exact if_pos hs
      obtain ⟨hidle, hwait, hclear⟩ := hu.start (by rw [hstart]; nofun)
      rw [hstart]
      exact h.start hs hidle hwait hclear
    · have hstart : (DmaInput.transport payload fits).start d = none := by
        rw [DmaInput.start, hw]
        exact if_neg hs
      rw [hstart, Option.toList_none, List.append_nil]
      exact h.write hs fun hev => hu.params hev _ (Option.mem_def.2 hw)

theorem Inv.finish {ss ts : List DmaParams} {fs : List Unit} (h : Inv d ss ts fs)
    (hthread : d.thread ≠ .waiting) (ok : Bool) : Inv (d.finish ok) ss ts (fs ++ [()]) := by
  have hidle : d.engine.startEvent = false := Bool.eq_false_iff.2 fun hev => hthread (h.waiting hev)
  have hcount := h.count
  rw [if_neg hthread] at hcount
  refine ⟨h.starts, ?_, fun _ => rfl, fun hbusy => ?_⟩
  · rw [hcount, List.length_append]
    rfl
  · rcases hbusy with hev | hne
    · exact absurd (hidle.symm.trans hev) nofun
    · exact absurd rfl hne

theorem Inv.resume {ss ts : List DmaParams} {fs : List Unit} (h : Inv d ss ts fs)
    (rresp wresp : TlmResponse) :
    Inv (dmaMachine.next d (.resume rresp wresp)) ss
      (ts ++ ((DmaInput.resume rresp wresp).begins d).toList)
      (fs ++ ((DmaInput.resume rresp wresp).finishes d).toList) := by
  have hnext : dmaMachine.next d (.resume rresp wresp) = (d.resume rresp wresp).1 := rfl
  rw [begins, finishes, hnext]
  unfold Dma.resume
  cases hthread : d.thread with
  | waiting =>
    dsimp only
    by_cases hev : d.engine.startEvent = true
    · have hstarts := h.starts
      have hcount := h.count
      rw [if_pos hev] at hstarts
      rw [if_pos hthread] at hcount
      rw [if_pos hev]
      refine ⟨?_, ?_, nofun, fun _ => (by decide : (1 : Word).getLsbD 1 = false)⟩
      · simpa [DmaEngine.params] using hstarts
      · simpa using hcount
    · rw [if_neg hev, hthread]
      simpa using h
  | copying remaining src dst =>
    have hne : d.thread ≠ .waiting := by
      rw [hthread]
      nofun
    dsimp only
    split
    · split
      · simpa [Dma.finish] using h.finish hne false
      · split
        · simpa [Dma.finish] using h.finish hne false
        · have hcount := h.count
          rw [if_neg hne] at hcount
          refine ⟨?_, ?_, fun hev => absurd (h.waiting hev) hne, fun _ => h.notDone (.inr hne)⟩
          · simpa using h.starts
          · simpa using hcount
    · simpa [Dma.finish] using h.finish hne true

/-- A register access neither begins nor ends a transfer. -/
theorem transport_thread {n : ℕ} (d : Dma) (payload : Payload n) (fits : 4 ≤ n) :
    (DmaInput.transport payload fits).begins d = none ∧
      (DmaInput.transport payload fits).finishes d = none := by
  rw [begins, finishes, next_transport]
  cases d.thread <;> exact ⟨rfl, rfl⟩

section

variable (is : List DmaInput) (x : DmaInput)

theorem starts_snoc : starts (is ++ [x]) = starts is ++ (x.start (dmaMachine.run {} is)).toList :=
  Machine.log_snoc ..

theorem transfers_snoc :
    transfers (is ++ [x]) = transfers is ++ (x.begins (dmaMachine.run {} is)).toList :=
  Machine.log_snoc ..

theorem finished_snoc :
    finished (is ++ [x]) = finished is ++ (x.finishes (dmaMachine.run {} is)).toList :=
  Machine.log_snoc ..

end

/-- The invariant holds after every undisturbed run. -/
theorem inv_run {is : List DmaInput} (h : dmaMachine.Along Undisturbed {} is) :
    Inv (dmaMachine.run {} is) (starts is) (transfers is) (finished is) := by
  induction is using List.reverseRecOn with
  | nil => exact inv_init
  | append_singleton is x ih =>
    obtain ⟨his, hx⟩ := Machine.along_snoc.1 h
    rw [starts_snoc, transfers_snoc, finished_snoc, Machine.run_snoc]
    cases x with
    | transport payload fits =>
      obtain ⟨hbegins, hfinishes⟩ := transport_thread (dmaMachine.run {} is) payload fits
      rw [hbegins, hfinishes, Option.toList_none, Option.toList_none, List.append_nil,
        List.append_nil]
      exact (ih his).transport hx
    | resume rresp wresp =>
      have hstart : (DmaInput.resume rresp wresp).start (dmaMachine.run {} is) = none := rfl
      rw [hstart, Option.toList_none, List.append_nil]
      exact (ih his).resume rresp wresp

theorem Inv.executedOnce {is : List DmaInput}
    (h : Inv (dmaMachine.run {} is) (Dma.starts is) (transfers is) (finished is)) :
    ExecutedOnce is where
  inOrder := ⟨_, h.starts.symm⟩
  all hidle := by
    have hstarts := h.starts
    rw [hidle] at hstarts
    simpa using hstarts.symm
  notDone hlt x val hread := by
    rw [readsStatus_eq hread]
    refine h.notDone ?_
    by_contra hbusy
    obtain ⟨hidle, hwait⟩ := not_or.1 hbusy
    have hlen := congrArg List.length h.starts
    have hcount := h.count
    rw [if_neg hidle, List.append_nil] at hlen
    rw [if_pos (not_not.1 hwait)] at hcount
    omega

/-- **Every start is executed once**, with its own parameters, and the done bit does not run ahead
of it, in every state reached by an undisturbed run. -/
theorem executed_once_run {is : List DmaInput} (h : dmaMachine.Along Undisturbed {} is)
    (pre : List DmaInput) (hpre : pre <+: is) : ExecutedOnce pre := by
  obtain ⟨post, rfl⟩ := hpre
  exact (inv_run (Machine.along_append.1 h).1).executedOnce

/-! ### Examples -/

/-- A register write. -/
def write (addr : BitVec 64) (val : Word) : DmaInput :=
  .transport ⟨.write, addr, Bytes.toLE val 4, 4, .incomplete⟩ le_rfl

/-- Four bytes are to be copied, and the transfer is started. -/
def program (src dst : Word) : List DmaInput :=
  [write 0x00 src, write 0x04 dst, write 0x08 4, write 0x0C 1]

/-- The thread runs one transfer of four bytes. -/
def transfer : List DmaInput := [.resume .ok .ok, .resume .ok .ok, .resume .ok .ok]

/-- A driver that waits for each transfer and clears the status. -/
theorem executed_once_run_polite :
    ExecutedOnce (program 0x80000000 0x80001000 ++ transfer ++ [write 0x10 0] ++
      program 0x80000100 0x80001100 ++ transfer) :=
  executed_once_run (by decide +kernel) _ (List.prefix_refl _)

/-- A register read. -/
def read (addr : BitVec 64) : DmaInput :=
  .transport ⟨.read, addr, zeroBuf, 4, .incomplete⟩ le_rfl

/-- A driver that finds the engine neither busy nor done and starts a second transfer loses the
first one. -/
theorem not_executed_once_twice :
    ¬ ExecutedOnce (program 0x80000000 0x80001000 ++ [read 0x10] ++
      program 0x80000100 0x80001100 ++ transfer) := by
  intro h
  have hall := h.all (by decide +kernel)
  revert hall
  decide +kernel

end Dma

end VirtualSoC
