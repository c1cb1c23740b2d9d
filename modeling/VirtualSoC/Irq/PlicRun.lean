import VirtualSoC.Irq.Plic
import VirtualSoC.Lib.Arbiter

/-!
# Runs of the interrupt controller

What acts on the PLIC: the interrupt lines of the peripherals and the transactions of the bus.  A
transaction amounts to one operation on the registers (`next_eq`), and each operation raises,
lowers, claims or completes requests of single sources (`getLsbD_pending_next`,
`getLsbD_claimed_next`).

## Main results

* `evaluateIrq_externalIrq`, `claimBest_cases` : both arbitration loops find the same winner;
* `exists_bTransport` : a transaction whose buffer holds its data is answered.
-/

namespace VirtualSoC

namespace Plic

/-! ### Single bits of the register words -/

theorem and_bit_ne_zero (x : Word) (i : Source) : x &&& bit i ≠ 0 ↔ x.getLsbD i = true := by
  rw [bit, BitVec.and_twoPow]
  have hne : BitVec.twoPow 32 i.1 ≠ 0 := by
    revert i
    decide
  cases x.getLsbD i
  · simp
  · simpa using hne

theorem getLsbD_or_bit (x : Word) (i j : Source) :
    (x ||| bit i).getLsbD j = (x.getLsbD j || decide (i = j)) := by
  have hj : j.1 < 32 := j.2.trans (by decide)
  have hcomm : decide (i = j) = decide (j = i) := decide_eq_decide.2 eq_comm
  rw [hcomm]
  simp [hj, Fin.ext_iff]

theorem getLsbD_and_not_bit (x : Word) (i j : Source) :
    (x &&& ~~~bit i).getLsbD j = (x.getLsbD j && !decide (i = j)) := by
  have hj : j.1 < 32 := j.2.trans (by decide)
  have hcomm : decide (i = j) = decide (j = i) := decide_eq_decide.2 eq_comm
  rw [hcomm]
  simp [hj, Fin.ext_iff]

/-! ### Arbitration -/

variable (p : Plic)

/-- A request of the source `i` that a claim may return. -/
structure Eligible (i : Source) : Prop where
  ne_zero : i ≠ 0
  pending : p.pending.getLsbD i = true
  enabled : p.enabled.getLsbD i = true
  notClaimed : p.claimed.getLsbD i = false
  threshold : p.threshold < p.priority i

/-- The eligible source of maximal priority, the lowest among equals. -/
structure IsBest (i : Source) : Prop where
  eligible : p.Eligible i
  maximal : ∀ j, p.Eligible j → p.priority j ≤ p.priority i
  lowest : ∀ j, p.Eligible j → p.priority j = p.priority i → i ≤ j

/-- The guard of the loops, without the comparison with the best priority so far. -/
def beats (i : Source) : Bool := p.actionable &&& bit i ≠ 0 ∧ p.priority i > p.threshold

/-- The arbitration with priorities as numbers. -/
def winner : Source × ℕ := Arbiter.pick p.beats (fun i => (p.priority i).toNat) (0, 0) sources

theorem mem_sources (i : Source) : i ∈ sources ↔ i ≠ 0 := by
  revert i
  decide

variable {p}

theorem beats_iff {i : Source} (hi : i ≠ 0) : p.beats i = true ↔ p.Eligible i := by
  rw [beats, decide_eq_true_eq, and_bit_ne_zero, actionable, BitVec.getLsbD_and,
    BitVec.getLsbD_and, BitVec.getLsbD_not, decide_eq_true (i.2.trans (by decide)),
    Bool.true_and, Bool.and_eq_true, Bool.and_eq_true, Bool.not_eq_true']
  constructor
  · rintro ⟨⟨⟨hp, he⟩, hc⟩, ht⟩
    exact ⟨hi, hp, he, hc, ht⟩
  · rintro ⟨-, hp, he, hc, ht⟩
    exact ⟨⟨⟨hp, he⟩, hc⟩, ht⟩

theorem winner_cases (p : Plic) :
    (p.winner = (0, 0) ∧ ∀ i, ¬ p.Eligible i) ∨
      ∃ i, p.winner = (i, (p.priority i).toNat) ∧ 0 < (p.priority i).toNat ∧ p.IsBest i := by
  rcases Arbiter.pick_eq p.beats (fun i => (p.priority i).toNat) (0, 0) sources with
    ⟨hw, hle⟩ | ⟨i, hw, hlt, hfirst⟩
  · refine .inl ⟨hw, fun i hi => ?_⟩
    have hzero := hle i ((mem_sources i).2 hi.ne_zero) ((beats_iff hi.ne_zero).2 hi)
    have hpos := BitVec.lt_def.1 hi.threshold
    omega
  · have hi0 : i ≠ 0 := (mem_sources i).1 hfirst.mem
    refine .inr ⟨i, hw, hlt, (beats_iff hi0).1 hfirst.eligible, fun j hj => ?_, fun j hj he => ?_⟩
    · exact BitVec.le_def.2
        (hfirst.le ((mem_sources j).2 hj.ne_zero) ((beats_iff hj.ne_zero).2 hj))
    · have hsorted : sources.Pairwise (· < ·) := by decide
      have hle : (p.priority i).toNat ≤ (p.priority j).toNat := by rw [he]
      rcases hfirst.eq_or_of_le hsorted ((mem_sources j).2 hj.ne_zero)
        ((beats_iff hj.ne_zero).2 hj) hle with rfl | hlt
      · exact le_rfl
      · exact hlt.le

theorem claimLoop_eq (p : Plic) :
    Prod.map id BitVec.toNat (sources.foldl (fun (best : Source × Word) (i : Source) =>
      if p.actionable &&& bit i ≠ 0 ∧ p.priority i > p.threshold ∧ p.priority i > best.2 then
        (i, p.priority i)
      else best) (0, 0)) = p.winner := by
  -- the loop compares words, the arbiter the numbers that they stand for
  refine (List.foldl_hom (Prod.map id BitVec.toNat) fun best i => ?_).symm
  have hguard : (p.beats i ∧ (p.priority i).toNat > best.2.toNat) ↔
      p.actionable &&& bit i ≠ 0 ∧ p.priority i > p.threshold ∧ p.priority i > best.2 := by
    rw [beats, decide_eq_true_eq, and_assoc, gt_iff_lt, gt_iff_lt, gt_iff_lt, BitVec.lt_def,
      BitVec.lt_def]
  by_cases h : p.actionable &&& bit i ≠ 0 ∧ p.priority i > p.threshold ∧ p.priority i > best.2
  · rw [if_pos h]
    exact if_pos (hguard.2 h)
  · rw [if_neg h]
    exact if_neg (mt hguard.1 h)

/-- The loop of `evaluate_irq` keeps the priority only. -/
theorem evaluateLoop_eq (p : Plic) :
    sources.foldl (fun bestPrio (i : Source) =>
      if p.actionable &&& bit i ≠ 0 ∧ p.priority i > p.threshold ∧ p.priority i > bestPrio then
        p.priority i
      else bestPrio) 0 =
    (sources.foldl (fun (best : Source × Word) (i : Source) =>
      if p.actionable &&& bit i ≠ 0 ∧ p.priority i > p.threshold ∧ p.priority i > best.2 then
        (i, p.priority i)
      else best) (0, 0)).2 := by
  change List.foldl _ ((0, 0) : Source × Word).2 sources = _
  refine List.foldl_hom Prod.snd fun best i => ?_
  split
  · rfl
  · rfl

/-- The output is high if and only if a request may be claimed. -/
theorem evaluateIrq_externalIrq (p : Plic) :
    p.evaluateIrq.externalIrq = true ↔ ∃ i, p.Eligible i := by
  have hprio : p.evaluateIrq.externalIrq = decide (0 < p.winner.2) := by
    rw [evaluateIrq, evaluateLoop_eq, ← claimLoop_eq]
    exact decide_eq_decide.2 BitVec.lt_def
  rw [hprio, decide_eq_true_eq]
  rcases winner_cases p with ⟨hw, hnone⟩ | ⟨i, hw, hpos, hbest⟩
  · rw [hw]
    exact iff_of_false (Nat.lt_irrefl 0) fun ⟨i, hi⟩ => hnone i hi
  · rw [hw]
    exact iff_of_true hpos ⟨i, hbest.eligible⟩

/-- A claim of `i`: the source enters service and its request is dropped. -/
def take (p : Plic) (i : Source) : Plic :=
  { p with claimed := p.claimed ||| bit i, pending := p.pending &&& ~~~bit i }

theorem claimBest_cases (p : Plic) :
    (p.claimBest = (0, p) ∧ ∀ i, ¬ p.Eligible i) ∨
      ∃ i, p.claimBest = (i, (p.take i).evaluateIrq) ∧ p.IsBest i := by
  have hid := congrArg Prod.fst (claimLoop_eq p)
  change _ = p.winner.1 at hid
  dsimp only [Prod.map_fst, id] at hid
  rcases winner_cases p with ⟨hw, hnone⟩ | ⟨i, hw, -, hbest⟩
  · rw [hw] at hid
    refine .inl ⟨?_, hnone⟩
    rw [claimBest, hid]
    exact if_neg (not_not.2 rfl)
  · rw [hw] at hid
    refine .inr ⟨i, ?_, hbest⟩
    rw [claimBest, hid]
    exact if_pos hbest.eligible.ne_zero

/-! ### Transactions -/

/-- A transaction whose buffer holds its data is answered. -/
theorem isSome_bTransport {n : ℕ} (p : Plic) (trans : Payload n)
    (fits : trans.dataLength.toNat ≤ n) : (p.bTransport trans).isSome := by
  unfold bTransport
  split
  · rfl
  next hlen =>
    rw [not_not.1 hlen] at fits
    exact isSome_regTransport p.access p fits

end Plic

/-- What acts on the PLIC. -/
inductive PlicInput
  /-- A peripheral drives its interrupt line. -/
  | setPending (sourceId : Word) (pending : Bool)
  /-- A transaction arrives, its buffer holds the data. -/
  | transport {n : ℕ} (payload : Payload n) (fits : payload.dataLength.toNat ≤ n)

namespace PlicInput

/-- A register write. -/
def write (addr : BitVec 64) (val : Word) : PlicInput :=
  .transport ⟨.write, addr, Bytes.toLE val 4, 4, .incomplete⟩ le_rfl

/-- A register read. -/
def read (addr : BitVec 64) : PlicInput :=
  .transport ⟨.read, addr, zeroBuf, 4, .incomplete⟩ le_rfl

end PlicInput

/-- The PLIC; the output is the answer to a transaction. -/
def plicMachine : Machine Plic PlicInput (Option (Σ n, Payload n)) where
  step
    | p, .setPending sourceId pending => (p.setPending sourceId pending, none)
    | p, .transport payload fits =>
      let answer := (p.bTransport payload).get (p.isSome_bTransport payload fits)
      (answer.2, some ⟨_, answer.1⟩)

/-- The operations that transactions and interrupt lines amount to. -/
inductive PlicOp
  | line (sourceId : Word) (level : Bool)
  | priority (src : Source) (val : Word)
  | pending (val : Word)
  | enable (val : Word)
  | threshold (val : Word)
  | claim
  | complete (val : Word)
  | idle
  deriving DecidableEq, Repr

namespace PlicOp

/-- A write of the word `val`. -/
def ofWrite (addr val : Word) : PlicOp :=
  if h : addr.toNat < Cfg.irqNumSources * 4 then
    .priority ⟨addr.toNat / 4, div_four_lt_irqNumSources h⟩ val
  else if addr = 0x1000 then .pending val
  else if addr = 0x2000 then .enable val
  else if addr = 0x200000 then .threshold val
  else if addr = 0x200004 then .complete val
  else .idle

/-- A read. -/
def ofRead (addr : Word) : PlicOp := if addr = 0x200004 then .claim else .idle

open Plic in
/-- The effect of an operation. -/
def apply (p : Plic) : PlicOp → Plic
  | .line sourceId level => p.setPending sourceId level
  | .priority src val => evaluateIrq (if src ≠ 0 then
      { p with priority := Function.update p.priority src (val &&& 0x7) } else p)
  | .pending val => evaluateIrq { p with pending := val }
  | .enable val => evaluateIrq { p with enabled := val }
  | .threshold val => evaluateIrq { p with threshold := val &&& 0x7 }
  | .claim => p.claimBest.2
  | .complete val => evaluateIrq (if val.toNat < Cfg.irqNumSources then
      { p with claimed := p.claimed &&& ~~~bit val.toNat } else p)
  | .idle => p

end PlicOp

/-- The operation of an input. -/
def PlicInput.op : PlicInput → PlicOp
  | .setPending sourceId pending => .line sourceId pending
  | .transport payload _ =>
    if payload.dataLength ≠ 4 then .idle
    else if payload.command = .write then
      (payload.getWord.map (PlicOp.ofWrite (payload.address.setWidth 32))).getD .idle
    else PlicOp.ofRead (payload.address.setWidth 32)

namespace Plic

variable {n : ℕ} (p : Plic)

theorem access_write (addr val : Word) :
    ((p.access true addr val).elim p Prod.snd) = (PlicOp.ofWrite addr val).apply p := by
  unfold access PlicOp.ofWrite
  by_cases hprio : addr.toNat < Cfg.irqNumSources * 4
  · rw [dif_pos hprio, dif_pos hprio]
    rfl
  · rw [dif_neg hprio, dif_neg hprio]
    simp only [if_true]
    by_cases h1 : addr = 0x1000
    · rw [if_pos h1, if_pos h1]
      rfl
    by_cases h2 : addr = 0x2000
    · rw [if_neg h1, if_neg h1, if_pos h2, if_pos h2]
      rfl
    by_cases h3 : addr = 0x200000
    · rw [if_neg h1, if_neg h1, if_neg h2, if_neg h2, if_pos h3, if_pos h3]
      rfl
    rw [if_neg h1, if_neg h1, if_neg h2, if_neg h2, if_neg h3, if_neg h3]
    split
    · rfl
    · rfl

/-- A read access to the claim register claims, any other read has no effect. -/
theorem access_read (addr val : Word) :
    ((p.access false addr val).elim p Prod.snd) = (PlicOp.ofRead addr).apply p := by
  unfold access PlicOp.ofRead
  by_cases hclaim : addr = 0x200004
  · subst hclaim
    rfl
  · rw [if_neg hclaim]
    simp only [Bool.false_eq_true, if_false, if_neg hclaim]
    split_ifs <;> rfl

theorem snd_of_bTransport {payload : Payload n} (fits : payload.dataLength.toNat ≤ n)
    {x : Payload n × Plic} (h : p.bTransport payload = some x) :
    x.2 = (PlicInput.transport payload fits).op.apply p := by
  unfold bTransport at h
  rw [PlicInput.op]
  split at h
  next hlen =>
    cases h
    rw [if_pos hlen]
    rfl
  next hlen =>
    rw [if_neg hlen]
    split
    next hw =>
      rw [not_not.1 hlen] at fits
      obtain ⟨val, hval⟩ := Payload.exists_getWord payload fits
      rw [hval, Option.map_some, Option.getD_some, ← access_write]
      exact regTransport_write hw hval h
    next hr =>
      rw [← access_read p _ 0]
      exact regTransport_read hr h

/-- **One step**: an input amounts to its operation. -/
theorem next_eq (x : PlicInput) : plicMachine.next p x = x.op.apply p := by
  cases x with
  | setPending sourceId pending => rfl
  | transport payload fits =>
    exact snd_of_bTransport p fits (Option.some_get _).symm

theorem ofRead_eq_claim {addr : Word} (h : PlicOp.ofRead addr = .claim) : addr = 0x200004 := by
  unfold PlicOp.ofRead at h
  split at h
  · assumption
  · cases h

theorem ofWrite_ne_claim (addr val : Word) : PlicOp.ofWrite addr val ≠ .claim := by
  unfold PlicOp.ofWrite
  split_ifs <;> simp

/-- A claim is a read of four bytes at the claim register. -/
theorem op_eq_claim_iff {payload : Payload n} {fits : payload.dataLength.toNat ≤ n} :
    (PlicInput.transport payload fits).op = .claim ↔
      payload.dataLength = 4 ∧ payload.command ≠ .write ∧
        payload.address.setWidth 32 = (0x200004 : Word) := by
  rw [PlicInput.op]
  constructor
  · intro h
    split at h
    next => cases h
    next hlen =>
      split at h
      next =>
        cases hval : payload.getWord with
        | none => cases hval ▸ h
        | some val =>
          rw [hval] at h
          exact absurd h (ofWrite_ne_claim _ _)
      next hr => exact ⟨not_not.1 hlen, hr, ofRead_eq_claim h⟩
  · rintro ⟨hlen, hr, haddr⟩
    rw [if_neg (not_not.2 hlen), if_neg hr, haddr]
    rfl

theorem bTransport_of_claim {payload : Payload n} {fits : payload.dataLength.toNat ≤ n}
    (h : (PlicInput.transport payload fits).op = .claim) :
    ∃ t, p.bTransport payload = some (t, p.claimBest.2) ∧ t.response = .ok ∧
      t.getWord = some (BitVec.ofNat 32 p.claimBest.1) := by
  obtain ⟨hlen, hr, haddr⟩ := op_eq_claim_iff.1 h
  rw [hlen] at fits
  rw [bTransport, if_neg (not_not.2 hlen)]
  refine exists_regTransport_read p fits hr ?_
  rw [haddr]
  rfl

end Plic

end VirtualSoC
