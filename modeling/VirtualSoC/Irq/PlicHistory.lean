import VirtualSoC.Irq.PlicSpec

/-!
# The history of a source

What the pending and in-service bits of a source say about the run so far, and what follows for
the requests of the devices.

## Main results

* `claims_exclusive` : between two claims of a source there is a completion, every claim consumes
  a request raised since the previous one, and no request is lost before it is claimed;
* `level_heard_run` : an asserted line is heard as long as no completion and no write to the
  pending word drops its request.
-/

namespace VirtualSoC

namespace Plic

open PlicInput

variable {i : Source} {is : List PlicInput}

/-- A request has been raised, and not withdrawn, overwritten or claimed since. -/
def Requested (i : Source) (is : List PlicInput) : Prop :=
  plicMachine.Last (fun _ x => x.Raises i) (fun p x => x.Lowers i p) {} is

/-- The source has been claimed, and not completed since. -/
def InService (i : Source) (is : List PlicInput) : Prop :=
  plicMachine.Last (fun p x => x.Claims i p) (fun _ x => x.Completes i) {} is

theorem pending_iff_requested (hi : i ≠ 0) (is : List PlicInput) :
    (plicMachine.run {} is).pending.getLsbD i = true ↔ Requested i is := by
  induction is using List.reverseRecOn with
  | nil => exact iff_of_false (by simp [Machine.run]) Machine.Last.not_nil
  | append_singleton is x ih =>
    rw [Machine.run_snoc, pending_next hi, ih, Requested, Requested, Machine.Last.snoc_iff]
    exact or_congr_right and_comm

theorem claimed_iff_inService (hi : i ≠ 0) (is : List PlicInput) :
    (plicMachine.run {} is).claimed.getLsbD i = true ↔ InService i is := by
  induction is using List.reverseRecOn with
  | nil => exact iff_of_false (by simp [Machine.run]) Machine.Last.not_nil
  | append_singleton is x ih =>
    rw [Machine.run_snoc, claimed_next hi, ih, InService, InService, Machine.Last.snoc_iff]
    exact or_congr_right and_comm

/-! ### Claims -/

theorem eligible_of_claims {p : Plic} {x : PlicInput} (hi : i ≠ 0) (h : x.Claims i p) :
    p.Eligible i := by
  obtain ⟨-, hbest⟩ := claims_iff.1 h
  rcases claimBest_cases p with ⟨hc, -⟩ | ⟨j, hc, hj⟩
  · rw [hc] at hbest
    exact absurd hbest.symm hi
  · rw [hc] at hbest
    exact hbest ▸ hj.eligible

theorem not_raises_of_claims {p : Plic} {x : PlicInput} (h : x.Claims i p) : ¬ x.Raises i := by
  rintro (⟨id, hop, -⟩ | ⟨val, hop, -⟩)
  · cases h.1.symm.trans hop
  · cases h.1.symm.trans hop

/-- **Claims are exclusive.**  In every run from reset, between two claims of a source it is
completed; a claim finds and consumes a request raised since the previous claim; and a request
stays pending until it is withdrawn, overwritten or claimed. -/
theorem claims_exclusive (hi : i ≠ 0) (is mid : List PlicInput) (x y : PlicInput) :
    let p := plicMachine.run {} is
    let q := plicMachine.run {} (is ++ x :: mid)
    (x.Claims i p → y.Claims i q → ∃ c ∈ mid, c.Completes i) ∧
      (x.Claims i p → Requested i is ∧ ¬ Requested i (is ++ [x])) ∧
      (x.Raises i → plicMachine.Along (fun p x => ¬ x.Lowers i p) (plicMachine.next p x) mid →
        q.pending.getLsbD i = true) := by
  intro p q
  have hq : q = plicMachine.run (plicMachine.next p x) mid := Machine.run_append ..
  refine ⟨fun hx hy => ?_, fun hx => ⟨?_, ?_⟩, fun hx hmid => ?_⟩
  · by_contra hnone
    -- without a completion the source stays in service
    have hclaimed : (plicMachine.next p x).claimed.getLsbD i = true :=
      (claimed_next hi).2 (.inl hx)
    have hmid : plicMachine.Along (fun _ c => ¬ c.Completes i) (plicMachine.next p x) mid :=
      Machine.along_of_mem (fun c hc hcompl => hnone ⟨c, hc, hcompl⟩) _
    have hkept : q.claimed.getLsbD i = true := by
      rw [hq]
      exact Machine.run_invariant_along (I := fun p => p.claimed.getLsbD i = true) hclaimed
        (fun s c hs hc => (claimed_next hi).2 (.inr ⟨hs, hc⟩)) hmid
    exact absurd hkept (by rw [(eligible_of_claims hi hy).notClaimed]; nofun)
  · exact (pending_iff_requested hi is).1 (eligible_of_claims hi hx).pending
  · rw [← pending_iff_requested hi, Machine.run_snoc, pending_next hi]
    rintro (hr | ⟨-, hl⟩)
    · exact not_raises_of_claims hx hr
    · exact hl (.inr (.inr hx))
  · have hpending : (plicMachine.next p x).pending.getLsbD i = true :=
      (pending_next hi).2 (.inl hx)
    rw [hq]
    exact Machine.run_invariant_along (I := fun p => p.pending.getLsbD i = true) hpending
      (fun s c hs hc => (pending_next hi).2 (.inr ⟨hs, hc⟩)) hmid

/-- The UART asserts its line. -/
def uartRequest : List PlicInput := [.write 0x2000 2, .write 4 1, .setPending 1 true]

/-- The UART asserts its line and is claimed. -/
def uartClaim : List PlicInput := uartRequest ++ [.read 0x200004]

/-- Two claims of the UART with a completion in between. -/
theorem claims_exclusive_uart :
    ∃ c ∈ [.setPending 1 true, .write 0x200004 1], PlicInput.Completes 1 c := by
  refine (claims_exclusive (by decide) uartRequest [.setPending 1 true, .write 0x200004 1]
    (.read 0x200004) (.read 0x200004)).1 (claims_iff.2 ?_) (claims_iff.2 ?_)
  · decide +kernel
  · decide +kernel

/-! ### Level interrupts -/

/-- The line of the source was last driven asserted. -/
def Asserted (i : Source) (is : List PlicInput) : Prop :=
  plicMachine.Last (fun _ x => x.Drives i true) (fun _ x => x.Drives i false) {} is

/-- The asserted lines are heard: the output is high while one is enabled, above the threshold and
not in service. -/
def LevelHeard (is : List PlicInput) : Prop :=
  ∀ i ≠ 0, Asserted i is → (plicMachine.run {} is).enabled.getLsbD i = true →
    (plicMachine.run {} is).threshold < (plicMachine.run {} is).priority i → ¬ InService i is →
      (plicMachine.run {} is).externalIrq = true

/-- The step `x` drops the request of an asserted line: a completion while none is pending, or
software that clears the pending bit of a source that is not in service. -/
def Drops (i : Source) (is : List PlicInput) (x : PlicInput) : Prop :=
  Asserted i is ∧ (x.Completes i ∧ ¬ Requested i is ∨ x.Overwrites i false ∧ ¬ InService i is)

/-- No step of the run drops a request. -/
def KeepsRequests (is : List PlicInput) : Prop :=
  ∀ pre x post, is = pre ++ x :: post → ∀ i ≠ 0, ¬ Drops i pre x

theorem KeepsRequests.of_append {is js : List PlicInput} (h : KeepsRequests (is ++ js)) :
    KeepsRequests is :=
  fun pre x post his => h pre x (post ++ js) (by rw [his]; simp)

/-- The request of an asserted line is pending or in service. -/
def Covered (is : List PlicInput) : Prop :=
  ∀ i ≠ 0, Asserted i is → Requested i is ∨ InService i is

theorem requested_snoc (i : Source) (is : List PlicInput) (x : PlicInput) :
    Requested i (is ++ [x]) ↔
      x.Raises i ∨ ¬ x.Lowers i (plicMachine.run {} is) ∧ Requested i is :=
  Machine.Last.snoc_iff

theorem inService_snoc (i : Source) (is : List PlicInput) (x : PlicInput) :
    InService i (is ++ [x]) ↔
      x.Claims i (plicMachine.run {} is) ∨ ¬ x.Completes i ∧ InService i is :=
  Machine.Last.snoc_iff

/-- A step that drops no request keeps the asserted lines covered. -/
theorem Covered.snoc {x : PlicInput} (h : Covered is) (hx : ∀ i ≠ 0, ¬ Drops i is x) :
    Covered (is ++ [x]) := by
  intro i hi hline
  rw [requested_snoc, inService_snoc]
  rcases Machine.Last.snoc_iff.1 hline with hdrive | ⟨hlow, hline⟩
  · exact .inl (.inl (.inl hdrive))
  by_cases hcl : x.Claims i (plicMachine.run {} is)
  · exact .inr (.inl hcl)
  -- software clears the request only of a source in service
  by_cases hover : x.Overwrites i false
  · have hserv : InService i is := by
      by_contra hserv
      exact hx i hi ⟨hline, .inr ⟨hover, hserv⟩⟩
    obtain ⟨val, hop, -⟩ := hover
    exact .inr (.inr ⟨fun ⟨_, hc, _⟩ => (nomatch hop.symm.trans hc), hserv⟩)
  have hlowers : ¬ x.Lowers i (plicMachine.run {} is) := by
    rintro (h | h | h)
    exacts [hlow h, hover h, hcl h]
  -- a source leaves service only when its line has been heard again
  by_cases hcompl : x.Completes i
  · have hreq : Requested i is := by
      by_contra hreq
      exact hx i hi ⟨hline, .inl ⟨hcompl, hreq⟩⟩
    exact .inl (.inr ⟨hlowers, hreq⟩)
  · exact (h i hi hline).imp (fun h => .inr ⟨hlowers, h⟩) fun h => .inr ⟨hcompl, h⟩

/-- A step that drops a request is no call of `set_pending` and no claim, and raises nothing. -/
theorem Drops.op_cases {x : PlicInput} (h : Drops i is x) :
    (¬ x.Drives i false ∧ ∀ p, ¬ x.Claims i p) ∧ ¬ x.Raises i := by
  obtain ⟨-, ⟨⟨val, hop, -⟩, -⟩ | ⟨⟨val, hop, hval⟩, -⟩⟩ := h
  · refine ⟨⟨?_, fun p hc => ?_⟩, ?_⟩
    · rintro ⟨_, hd, -⟩
      cases hop.symm.trans hd
    · cases hop.symm.trans hc.1
    · rintro (⟨_, hd, -⟩ | ⟨_, hd, -⟩)
      · cases hop.symm.trans hd
      · cases hop.symm.trans hd
  · refine ⟨⟨?_, fun p hc => ?_⟩, ?_⟩
    · rintro ⟨_, hd, -⟩
      cases hop.symm.trans hd
    · cases hop.symm.trans hc.1
    · rintro (⟨_, hd, -⟩ | ⟨_, hd, hv⟩)
      · cases hop.symm.trans hd
      · cases hop.symm.trans hd
        exact Bool.false_ne_true (hval.symm.trans hv)

/-- A step that drops a request leaves an asserted line uncovered. -/
theorem not_covered_of_drops {x : PlicInput} (hi : i ≠ 0) (h : Drops i is x) :
    ¬ Covered (is ++ [x]) := by
  intro hcov
  obtain ⟨⟨hdrive, hclaim⟩, hraise⟩ := h.op_cases
  rcases hcov i hi (h.1.snoc hdrive) with hr | hs
  · obtain ⟨hlow, hreq⟩ := ((requested_snoc i is x).1 hr).resolve_left hraise
    rcases h.2 with ⟨-, hnone⟩ | ⟨hover, -⟩
    · exact hnone hreq
    · exact hlow (.inr (.inl hover))
  · obtain ⟨hcompl, hserv⟩ := ((inService_snoc i is x).1 hs).resolve_left (hclaim _)
    rcases h.2 with ⟨hc, -⟩ | ⟨-, hnone⟩
    · exact hcompl hc
    · exact hnone hserv

/-- The asserted lines stay covered exactly in the runs that drop no request. -/
theorem keepsRequests_iff : KeepsRequests is ↔ ∀ pre, pre <+: is → Covered pre := by
  constructor
  · intro h pre hpre
    obtain ⟨post, rfl⟩ := hpre
    replace h := h.of_append
    induction pre using List.reverseRecOn with
    | nil => exact fun i _ hline => absurd hline Machine.Last.not_nil
    | append_singleton pre x ih => exact (ih h.of_append).snoc (h pre x [] rfl)
  · intro h pre x post his i hi hdrop
    exact not_covered_of_drops hi hdrop (h _ ⟨post, by rw [his]; simp⟩)

/-- **No level interrupt is lost** in a run that drops no request: in every state reached, an
asserted line that is enabled, above the threshold and not in service drives the output high. -/
theorem level_heard_run (hkeep : KeepsRequests is) (pre : List PlicInput) (hpre : pre <+: is) :
    LevelHeard pre := by
  intro i hi hline henabled hprio hserv
  have hreq := (keepsRequests_iff.1 hkeep pre hpre i hi hline).resolve_right hserv
  have hclaimed : (plicMachine.run {} pre).claimed.getLsbD i = false :=
    Bool.eq_false_iff.2 fun h => hserv ((claimed_iff_inService hi pre).1 h)
  exact (settled_run pre).2
    ⟨i, hi, (pending_iff_requested hi pre).2 hreq, henabled, hclaimed, hprio⟩

theorem KeepsRequests.snoc {x : PlicInput} (h : KeepsRequests is)
    (hx : ∀ i ≠ 0, ¬ Drops i is x) : KeepsRequests (is ++ [x]) := by
  intro pre y post his
  rcases List.eq_nil_or_concat post with rfl | ⟨post, z, rfl⟩
  · obtain ⟨rfl, hxy⟩ := List.append_inj' his rfl
    cases hxy
    exact hx
  · rw [List.concat_eq_append, ← List.cons_append, ← List.append_assoc] at his
    obtain ⟨rfl, -⟩ := List.append_inj' his rfl
    exact h pre y post rfl

theorem not_drops {x : PlicInput} (hc : ∀ val, x.op ≠ .complete val)
    (ho : ∀ val, x.op ≠ .pending val) : ¬ Drops i is x := by
  rintro ⟨-, ⟨⟨val, hop, -⟩, -⟩ | ⟨⟨val, hop, -⟩, -⟩⟩
  · exact hc val hop
  · exact ho val hop

/-- The UART asserts its line again while it is in service, and is completed. -/
theorem level_heard_run_uart :
    LevelHeard (uartClaim ++ [.setPending 1 true] ++ [.write 0x200004 1]) := by
  refine level_heard_run ?_ _ (List.prefix_refl _)
  refine KeepsRequests.snoc ?_ fun i hi ⟨_, hdrop⟩ => ?_
  · intro pre x post his i hi
    have hx : x ∈ uartClaim ++ [.setPending 1 true] := his ▸ by simp
    have hops : ∀ x ∈ uartClaim ++ [.setPending 1 true],
        x.op ∈ [.enable 2, .priority 1 1, .line 1 true, .claim] := by
      decide +kernel
    have hop := hops x hx
    refine not_drops (fun val h => ?_) fun val h => ?_
    · rw [h] at hop
      simp at hop
    · rw [h] at hop
      simp at hop
  · have hop : (PlicInput.write 0x200004 1).op = .complete 1 := by decide +kernel
    rcases hdrop with ⟨⟨val, hc, hval⟩, hreq⟩ | ⟨⟨val, ho, -⟩, -⟩
    · cases hop.symm.trans hc
      have hi1 : i = 1 := Fin.ext hval.symm
      subst hi1
      refine hreq ((pending_iff_requested hi _).1 ?_)
      decide +kernel
    · cases hop.symm.trans ho

/-- A completion does not raise the interrupt again of a line that is still asserted. -/
theorem not_level_heard_complete : ¬ LevelHeard (uartClaim ++ [.write 0x200004 1]) := by
  intro h
  have hline : Asserted 1 (uartClaim ++ [.write 0x200004 1]) := by
    refine ⟨uartRequest.take 2, .setPending 1 true, [.read 0x200004, .write 0x200004 1], rfl,
      ⟨1, rfl, rfl⟩, ?_⟩
    refine ⟨?_, ?_, trivial⟩
    · rintro ⟨id, hop, -⟩
      cases hop
    · rintro ⟨id, hop, -⟩
      cases hop
  have hserv : ¬ InService 1 (uartClaim ++ [.write 0x200004 1]) := by
    rw [← claimed_iff_inService (by decide)]
    decide +kernel
  have hirq := h 1 (by decide) hline (by decide +kernel) (by decide +kernel) hserv
  revert hirq
  decide +kernel

end Plic

end VirtualSoC
