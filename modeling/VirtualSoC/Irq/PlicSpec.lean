import VirtualSoC.Irq.PlicRun

/-!
# Requests, claims and completions

Each input raises, withdraws, claims or completes the request of a source, and the bits of the
source in the pending and in-service words say what has happened to it last
(`pending_next`, `claimed_next`).

The main result is `irq_agrees`: the interrupt output and the claim register agree in every
reachable state.
-/

namespace VirtualSoC

namespace PlicInput

variable (i : Source) (p : Plic) (x : PlicInput)

/-- The device drives the line of source `i` to `level`. -/
def Drives (level : Bool) : Prop := ∃ id, x.op = .line id level ∧ id.toNat = i

/-- Software writes `b` to the bit of source `i` in the pending word. -/
def Overwrites (b : Bool) : Prop := ∃ val, x.op = .pending val ∧ val.getLsbD i = b

/-- A claim read returns source `i`. -/
def Claims : Prop :=
  x.op = .claim ∧ ∃ t : Σ n, Payload n, plicMachine.out p x = some t ∧
    t.2.getWord = some (BitVec.ofNat 32 i)

/-- Source `i` is completed. -/
def Completes : Prop := ∃ val, x.op = .complete val ∧ val.toNat = i

/-- A request of source `i` is raised. -/
def Raises : Prop := x.Drives i true ∨ x.Overwrites i true

/-- The request of source `i` is withdrawn, overwritten or claimed. -/
def Lowers : Prop := x.Drives i false ∨ x.Overwrites i false ∨ x.Claims i p

end PlicInput

namespace Plic

open PlicInput

variable {i : Source} {p : Plic} {x : PlicInput}

theorem claims_iff : x.Claims i p ↔ x.op = .claim ∧ p.claimBest.1 = i := by
  refine and_congr_right fun hop => ?_
  cases x with
  | setPending id v => cases hop
  | transport payload fits =>
    obtain ⟨t, ht, -, hword⟩ := bTransport_of_claim p hop
    have hout : plicMachine.out p (.transport payload fits) = some ⟨_, t⟩ := by
      refine congrArg some (congrArg (Sigma.mk _) ?_)
      exact congrArg Prod.fst (Option.get_of_eq_some _ ht)
    rw [hout]
    constructor
    · rintro ⟨s, hs, hi⟩
      cases hs
      have hn := congrArg BitVec.toNat (Option.some.inj (hword.symm.trans hi))
      rw [BitVec.toNat_ofNat, BitVec.toNat_ofNat,
        Nat.mod_eq_of_lt (p.claimBest.1.2.trans (by decide)),
        Nat.mod_eq_of_lt (i.2.trans (by decide))] at hn
      exact Fin.ext hn
    · rintro rfl
      exact ⟨_, rfl, hword⟩

/-! ### The bits of a source after each operation -/

theorem getLsbD_setPending (hi : i ≠ 0) (p : Plic) (id : Word) (v : Bool) :
    (p.setPending id v).pending.getLsbD i =
      if id.toNat = i then v else p.pending.getLsbD i := by
  unfold setPending
  split
  next h =>
    -- the ids that are ignored are no id of a source in use
    rw [if_neg]
    rintro hid
    rcases h with rfl | h
    · exact hi (Fin.ext hid.symm)
    · exact absurd i.2 (by omega)
  next h =>
    obtain ⟨-, hlt⟩ := not_or.1 h
    -- inside the range, ids and sources are the same
    have heq : (⟨id.toNat, not_le.1 hlt⟩ : Source) = i ↔ id.toNat = i.1 := Fin.ext_iff
    cases v with
    | true =>
      change (p.pending ||| bit (⟨id.toNat, not_le.1 hlt⟩ : Source)).getLsbD i = _
      rw [getLsbD_or_bit]
      by_cases hid : id.toNat = i.1 <;> simp [hid, heq]
    | false =>
      change (p.pending &&& ~~~bit (⟨id.toNat, not_le.1 hlt⟩ : Source)).getLsbD i = _
      rw [getLsbD_and_not_bit]
      by_cases hid : id.toNat = i.1 <;> simp [hid, heq]

theorem claimed_setPending (p : Plic) (id : Word) (v : Bool) :
    (p.setPending id v).claimed = p.claimed := by
  unfold setPending
  split
  · rfl
  · split <;> rfl

theorem getLsbD_claimBest (hi : i ≠ 0) (p : Plic) :
    p.claimBest.2.pending.getLsbD i = (p.pending.getLsbD i && !decide (p.claimBest.1 = i)) ∧
      p.claimBest.2.claimed.getLsbD i = (p.claimed.getLsbD i || decide (p.claimBest.1 = i)) := by
  rcases claimBest_cases p with ⟨hc, -⟩ | ⟨j, hc, -⟩
  · rw [hc]
    simp [Ne.symm hi]
  · rw [hc]
    exact ⟨getLsbD_and_not_bit _ j i, getLsbD_or_bit _ j i⟩

theorem getLsbD_complete (p : Plic) (val : Word) :
    (PlicOp.apply p (.complete val)).claimed.getLsbD i =
      (p.claimed.getLsbD i && !decide (val.toNat = i)) := by
  change (if val.toNat < Cfg.irqNumSources then
    { p with claimed := p.claimed &&& ~~~bit val.toNat } else p).claimed.getLsbD i = _
  split
  next h =>
    have heq : (⟨val.toNat, h⟩ : Source) = i ↔ val.toNat = i.1 := Fin.ext_iff
    rw [← decide_eq_decide.2 heq]
    exact getLsbD_and_not_bit _ (⟨val.toNat, h⟩ : Source) i
  next h =>
    have hne : val.toNat ≠ i.1 := fun heq => h (heq ▸ i.2)
    simp [hne]

theorem pending_complete (p : Plic) (val : Word) :
    (PlicOp.apply p (.complete val)).pending = p.pending := by
  change (if val.toNat < Cfg.irqNumSources then
    { p with claimed := p.claimed &&& ~~~bit val.toNat } else p).pending = _
  split <;> rfl

/-- The priority registers and the request bits are separate. -/
theorem apply_priority (p : Plic) (src : Source) (val : Word) :
    (PlicOp.apply p (.priority src val)).pending = p.pending ∧
      (PlicOp.apply p (.priority src val)).claimed = p.claimed := by
  change (ite (src ≠ 0) _ p).pending = _ ∧ (ite (src ≠ 0) _ p).claimed = _
  split <;> exact ⟨rfl, rfl⟩

theorem pending_next (hi : i ≠ 0) :
    (plicMachine.next p x).pending.getLsbD i = true ↔
      x.Raises i ∨ p.pending.getLsbD i = true ∧ ¬ x.Lowers i p := by
  rw [next_eq, Lowers, claims_iff, Raises, Drives, Drives, Overwrites, Overwrites]
  cases x.op with
  | line id level =>
    rw [show PlicOp.apply p (.line id level) = p.setPending id level from rfl,
      getLsbD_setPending hi]
    by_cases hid : id.toNat = i.1
    · cases level <;> simp [hid]
    · simp [hid]
  | pending val =>
    rw [show (PlicOp.apply p (.pending val)).pending = val from rfl]
    cases hb : val.getLsbD i <;> simp [hb]
  | claim =>
    -- a claim takes the request along
    rw [show PlicOp.apply p .claim = p.claimBest.2 from rfl, (getLsbD_claimBest hi p).1]
    simp
  | complete val =>
    -- a completion leaves the requests alone, also that of its source
    rw [pending_complete]
    simp
  | priority src val =>
    rw [(apply_priority p src val).1]
    simp
  | enable val | threshold val | idle => simp [PlicOp.apply, evaluateIrq]

theorem claimed_next (hi : i ≠ 0) :
    (plicMachine.next p x).claimed.getLsbD i = true ↔
      x.Claims i p ∨ p.claimed.getLsbD i = true ∧ ¬ x.Completes i := by
  rw [next_eq, claims_iff, Completes]
  cases x.op with
  | line id level =>
    rw [show PlicOp.apply p (.line id level) = p.setPending id level from rfl,
      claimed_setPending]
    simp
  | claim =>
    rw [show PlicOp.apply p .claim = p.claimBest.2 from rfl, (getLsbD_claimBest hi p).2]
    simp [or_comm]
  | complete val =>
    rw [getLsbD_complete]
    simp
  | priority src val =>
    rw [(apply_priority p src val).2]
    simp
  | pending val | enable val | threshold val | idle => simp [PlicOp.apply, evaluateIrq]

/-! ### The output and the claim register -/

/-- The output is what the arbitration finds. -/
def Settled (p : Plic) : Prop := p.externalIrq = true ↔ ∃ i, p.Eligible i

theorem settled_evaluateIrq (p : Plic) : p.evaluateIrq.Settled := by
  refine (evaluateIrq_externalIrq p).trans ⟨?_, ?_⟩
  · rintro ⟨i, h⟩
    exact ⟨i, h.ne_zero, h.pending, h.enabled, h.notClaimed, h.threshold⟩
  · rintro ⟨i, h⟩
    exact ⟨i, h.ne_zero, h.pending, h.enabled, h.notClaimed, h.threshold⟩

/-- Every operation that changes a register evaluates the output anew. -/
theorem apply_cases (p : Plic) (op : PlicOp) :
    op.apply p = p ∨ ∃ q, op.apply p = evaluateIrq q := by
  cases op with
  | line id level =>
    change p.setPending id level = p ∨ ∃ q, p.setPending id level = evaluateIrq q
    unfold setPending
    split
    · exact .inl rfl
    · split
      · exact .inr ⟨_, rfl⟩
      · exact .inr ⟨_, rfl⟩
  | claim =>
    change p.claimBest.2 = p ∨ ∃ q, p.claimBest.2 = evaluateIrq q
    rcases claimBest_cases p with ⟨hc, -⟩ | ⟨i, hc, -⟩
    · exact .inl (by rw [hc])
    · exact .inr ⟨_, by rw [hc]⟩
  | priority src val => exact .inr ⟨_, rfl⟩
  | pending val => exact .inr ⟨_, rfl⟩
  | enable val => exact .inr ⟨_, rfl⟩
  | threshold val => exact .inr ⟨_, rfl⟩
  | complete val => exact .inr ⟨_, rfl⟩
  | idle => exact .inl rfl

theorem Settled.next (h : p.Settled) : (plicMachine.next p x).Settled := by
  rw [next_eq]
  rcases apply_cases p x.op with heq | ⟨q, heq⟩
  · rwa [heq]
  · rw [heq]
    exact settled_evaluateIrq q

/-- Priorities and the threshold have three bits, source 0 has no priority. -/
structure InRange (p : Plic) : Prop where
  priority : ∀ i, (p.priority i).toNat ≤ 7
  threshold : p.threshold.toNat ≤ 7
  reserved : p.priority 0 = 0

theorem and_seven_le (val : Word) : (val &&& 0x7).toNat ≤ 7 := by
  rw [BitVec.toNat_and]
  exact Nat.and_le_right

theorem InRange.next (h : p.InRange) : (plicMachine.next p x).InRange := by
  rw [next_eq]
  cases x.op with
  | line id level =>
    change (p.setPending id level).InRange
    unfold setPending
    split
    · exact h
    · split <;> exact ⟨h.priority, h.threshold, h.reserved⟩
  | claim =>
    change p.claimBest.2.InRange
    rcases claimBest_cases p with ⟨hc, -⟩ | ⟨i, hc, -⟩
    · rwa [hc]
    · rw [hc]
      exact ⟨h.priority, h.threshold, h.reserved⟩
  | priority src val =>
    by_cases hsrc : src = 0
    · rw [PlicOp.apply, if_neg (not_not.2 hsrc)]
      exact ⟨h.priority, h.threshold, h.reserved⟩
    · rw [PlicOp.apply, if_pos hsrc]
      refine ⟨fun i => ?_, h.threshold, ?_⟩
      · change (Function.update p.priority src (val &&& 0x7) i).toNat ≤ 7
        rcases eq_or_ne i src with rfl | hne
        · rw [Function.update_self]
          exact and_seven_le val
        · rw [Function.update_of_ne hne]
          exact h.priority i
      · exact (Function.update_of_ne (Ne.symm hsrc) ..).trans h.reserved
  | threshold val => exact ⟨h.priority, and_seven_le val, h.reserved⟩
  | complete val =>
    rw [PlicOp.apply]
    split <;> exact ⟨h.priority, h.threshold, h.reserved⟩
  | pending val | enable val => exact ⟨h.priority, h.threshold, h.reserved⟩
  | idle => exact h

/-- The interrupt output agrees with what a claim read returns. -/
structure Agrees (p : Plic) : Prop where
  claim : ∀ x : PlicInput, x.op = .claim → ∃ i, x.Claims i p ∧
    (p.externalIrq = true ↔ i ≠ 0) ∧ (i ≠ 0 → p.IsBest i)
  inRange : p.InRange

theorem agrees_of_settled (h : p.Settled) (hr : p.InRange) : p.Agrees where
  claim x hx := by
    refine ⟨p.claimBest.1, claims_iff.2 ⟨hx, rfl⟩, ?_⟩
    rcases claimBest_cases p with ⟨hc, hnone⟩ | ⟨i, hc, hbest⟩
    · rw [hc]
      exact ⟨h.trans (iff_of_false (fun ⟨i, hi⟩ => hnone i hi) (not_not.2 rfl)),
        fun h0 => absurd rfl h0⟩
    · rw [hc]
      exact ⟨h.trans (iff_of_true ⟨i, hbest.eligible⟩ hbest.eligible.ne_zero), fun _ => hbest⟩
  inRange := hr

/-- The output is settled after every run from reset. -/
theorem settled_run (is : List PlicInput) : (plicMachine.run {} is).Settled := by
  have hinit : Settled {} := iff_of_false nofun fun ⟨i, hi⟩ => by simpa using hi.pending
  exact Machine.run_invariant hinit (fun _ _ h => h.next) is

/-- **The interrupt output and the claim register agree** after every run from reset. -/
theorem irq_agrees (is : List PlicInput) : (plicMachine.run {} is).Agrees := by
  have hinit : InRange {} := ⟨fun i => Nat.zero_le 7, Nat.zero_le 7, rfl⟩
  exact agrees_of_settled (settled_run is)
    (Machine.run_invariant hinit (fun _ _ h => h.next) is)

end Plic

end VirtualSoC
