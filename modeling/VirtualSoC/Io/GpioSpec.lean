import VirtualSoC.Io.Gpio

/-!
# The edges that the GPIO latches

`gpio_latches` : a status bit is set iff an edge of its pin has been latched since the last write
that clears it, and the line shows the status under the mask.
-/

namespace VirtualSoC

/-- The step changes pin `i` while its mask bit is set. -/
def GpioInput.Latches (i : ℕ) (g : Gpio) : GpioInput → Prop
  | .setInput pins => (g.input ^^^ pins).getLsbD i = true ∧ g.irqMask.getLsbD i = true
  | .transport .. => False

/-- The step writes the status with bit `i` set. -/
def GpioInput.Clears (i : ℕ) : GpioInput → Prop
  | .setInput _ => False
  | .transport payload _ => payload.command = .write ∧ payload.address.setWidth 32 = (0x10 : Word) ∧
      ∃ val, payload.getWord = some val ∧ val.getLsbD i = true

namespace Gpio

variable {g g' : Gpio} {i : ℕ}

/-- What the line shows. -/
def Line (g : Gpio) : Prop := g.irq = true ↔ g.irqStatus &&& g.irqMask ≠ 0

theorem line_checkIrq (g : Gpio) : g.checkIrq.Line := decide_eq_true_iff

theorem irqStatus_access (g : Gpio) (isWrite : Bool) (addr val : Word) :
    ((g.access isWrite addr val).elim g Prod.snd).irqStatus =
      if isWrite = true ∧ addr = 0x10 then g.irqStatus &&& ~~~val else g.irqStatus := by
  by_cases h : addr = 0x10
  · subst h
    cases isWrite <;> rfl
  · rw [if_neg fun hc => h hc.2]
    unfold access
    repeat' split
    all_goals rfl

theorem Line.access {isWrite : Bool} {addr val v : Word} (h : g.Line)
    (hacc : g.access isWrite addr val = some (v, g')) : g'.Line := by
  unfold Gpio.access at hacc
  repeat' split at hacc
  all_goals cases hacc <;> first | exact h | exact line_checkIrq _

/-! ### One step -/

theorem exists_next_transport {n : ℕ} (g : Gpio) (payload : Payload n) (fits : 4 ≤ n) :
    ∃ t, regTransport g.access g payload =
      some (t, gpioMachine.next g (.transport payload fits)) :=
  ⟨_, (Option.some_get (isSome_regTransport g.access g fits)).symm⟩

theorem Line.next (h : g.Line) (inp : GpioInput) : (gpioMachine.next g inp).Line := by
  cases inp with
  | setInput pins => exact line_checkIrq _
  | transport payload fits =>
    obtain ⟨t, ht⟩ := g.exists_next_transport payload fits
    rcases exists_access_of_regTransport ht with heq | ⟨_, _, _, _, hacc⟩
    · dsimp only at heq
      rw [heq]
      exact h
    · exact h.access hacc

theorem getLsbD_and_not (x val : Word) (i : ℕ) :
    (x &&& ~~~val).getLsbD i = true ↔ val.getLsbD i ≠ true ∧ x.getLsbD i = true := by
  rw [BitVec.getLsbD_and, BitVec.getLsbD_not, Bool.and_eq_true, Bool.and_eq_true,
    Bool.not_eq_true', decide_eq_true_iff, Ne, Bool.not_eq_true, and_comm]
  exact and_congr_left fun hx => and_iff_right (BitVec.lt_of_getLsbD hx)

theorem irqStatus_next (g : Gpio) (inp : GpioInput) :
    (gpioMachine.next g inp).irqStatus.getLsbD i = true ↔
      inp.Latches i g ∨ ¬ inp.Clears i ∧ g.irqStatus.getLsbD i = true := by
  cases inp with
  | setInput pins =>
    change (g.irqStatus ||| ((g.input ^^^ pins) &&& g.irqMask)).getLsbD i = true ↔ _
    rw [BitVec.getLsbD_or, BitVec.getLsbD_and, Bool.or_eq_true, Bool.and_eq_true, or_comm]
    exact or_congr_right (and_iff_right not_false).symm
  | transport payload fits =>
    obtain ⟨t, ht⟩ := g.exists_next_transport payload fits
    obtain ⟨val, hval, hnext⟩ := exists_val_of_regTransport ht
    dsimp only at hnext
    have hlatch : ¬ (GpioInput.transport payload fits).Latches i g := not_false
    rw [hnext, irqStatus_access, or_iff_right hlatch]
    simp only [decide_eq_true_iff]
    split
    next hw =>
      -- the value written is the one that the copy has read
      rw [getLsbD_and_not]
      refine and_congr_left' (not_congr ⟨fun h => ⟨hw.1, hw.2, val, hval hw.1, h⟩, ?_⟩)
      rintro ⟨-, -, val', hval', h⟩
      cases (hval hw.1).symm.trans hval'
      exact h
    next hw => exact (and_iff_right fun hc => hw ⟨hc.1, hc.2.1⟩).symm

end Gpio

/-- From reset, after any changes of the pins and register accesses: a status bit is set iff some
change of its pin has been latched under the mask since the last write that clears the bit, and the
line is high iff a status bit is set under the mask. -/
theorem gpio_latches (is : List GpioInput) :
    (∀ i, (gpioMachine.run {} is).irqStatus.getLsbD i = true ↔
      gpioMachine.Last (fun g inp => inp.Latches i g) (fun _ inp => inp.Clears i) {} is) ∧
    ((gpioMachine.run {} is).irq = true ↔
      (gpioMachine.run {} is).irqStatus &&& (gpioMachine.run {} is).irqMask ≠ 0) := by
  refine ⟨fun i => ?_, Machine.run_invariant (I := Gpio.Line) (by rw [Gpio.Line]; decide)
    (fun _ inp h => h.next inp) is⟩
  induction is using List.reverseRecOn with
  | nil => exact iff_of_false (by simp [Machine.run]) Machine.Last.not_nil
  | append_singleton is inp ih =>
    rw [Machine.run_snoc, Gpio.irqStatus_next, Machine.Last.snoc_iff, ih]

end VirtualSoC
