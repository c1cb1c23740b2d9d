import Mathlib.Data.Nat.Notation

/-!
# Runs of partial steps

A step takes a state and an input to the next state, or is undefined.

## Main results

* `exists_run` : a property with a counter that every step carries on holds after a run;
* `At.exists_split` : the part of a run before the step of a given number.
-/

namespace PartialRun

variable {σ ι : Type*} (step : σ → ι → Option σ)

/-- The state after a list of inputs, `none` when a step is undefined. -/
def run (s : σ) : List ι → Option σ
  | [] => some s
  | i :: is => (step s i).bind fun s' => run s' is

/-- The step with the number `k` satisfies `R`. -/
def At (R : σ → ι → Prop) (s : σ) : List ι → ℕ → Prop
  | [], _ => False
  | i :: _, 0 => R s i
  | i :: is, k + 1 => ∃ s', step s i = some s' ∧ At R s' is k

variable {step} {R : σ → ι → Prop} {s s' : σ} {is : List ι}

theorem run_cons {i : ι} (h : step s i = some s') : run step s (i :: is) = run step s' is := by
  rw [run, h, Option.bind_some]

theorem run_append (js : List ι) :
    run step s (is ++ js) = (run step s is).bind fun s' => run step s' js := by
  induction is generalizing s with
  | nil => rfl
  | cons i is ih =>
    rw [List.cons_append, run, run, Option.bind_assoc]
    exact congrArg _ (funext fun s' => ih)

theorem run_idle (h : ∀ i, step s i = some s) (is : List ι) : run step s is = some s := by
  induction is with
  | nil => rfl
  | cons i is ih => rw [run_cons (h i), ih]

/-- A property that every step carries on to the next number, unless `R` holds of it. -/
theorem exists_run {P : ℕ → σ → Prop} {N : ℕ}
    (hstep : ∀ k s i, k < N → P k s → ¬ R s i → ∃ s', step s i = some s' ∧ P (k + 1) s') {k : ℕ}
    (hP : P k s) (is : List ι) (hN : k + is.length ≤ N) (hR : ∀ j < is.length, ¬ At step R s is j) :
    ∃ s', run step s is = some s' ∧ P (k + is.length) s' := by
  induction is generalizing s k with
  | nil => exact ⟨s, rfl, hP⟩
  | cons i is ih =>
    rw [List.length_cons] at hN hR ⊢
    obtain ⟨s₁, hs₁, hP₁⟩ := hstep k s i (by omega) hP (hR 0 (Nat.succ_pos _))
    have hR₁ : ∀ j < is.length, ¬ At step R s₁ is j := fun j hj hat =>
      hR (j + 1) (Nat.succ_lt_succ hj) ⟨s₁, hs₁, hat⟩
    obtain ⟨s', hrun, hP'⟩ := ih hP₁ (by omega) hR₁
    refine ⟨s', by rw [run_cons hs₁, hrun], ?_⟩
    rwa [Nat.add_right_comm, Nat.add_assoc] at hP'

theorem exists_split {k : ℕ} (h : k < is.length) :
    ∃ before i after, is = before ++ i :: after ∧ before.length = k := by
  refine ⟨is.take k, is[k], is.drop (k + 1), ?_, List.length_take_of_le (Nat.le_of_lt h)⟩
  rw [← List.drop_eq_getElem_cons h, List.take_append_drop]

/-- The inputs before the step, and the state that it is taken in. -/
theorem At.exists_split {k : ℕ} (h : At step R s is k) :
    ∃ before i after s', is = before ++ i :: after ∧ before.length = k ∧
      run step s before = some s' ∧ R s' i := by
  induction is generalizing s k with
  | nil => exact h.elim
  | cons i is ih =>
    cases k with
    | zero => exact ⟨[], i, is, s, rfl, rfl, rfl, h⟩
    | succ k =>
      obtain ⟨s₁, hs₁, hat⟩ := h
      obtain ⟨before, j, after, s', rfl, rfl, hrun, hR⟩ := ih hat
      exact ⟨i :: before, j, after, s', rfl, rfl, by rw [run_cons hs₁, hrun], hR⟩

theorem At.append {k : ℕ} (h : At step R s is k) (js : List ι) : At step R s (is ++ js) k := by
  induction is generalizing s k with
  | nil => exact h.elim
  | cons i is ih =>
    cases k with
    | zero => exact h
    | succ k =>
      obtain ⟨s₁, hs₁, hat⟩ := h
      exact ⟨s₁, hs₁, ih hat⟩

theorem not_at_false {k : ℕ} : ¬ At step (fun _ _ => False) s is k := fun h =>
  let ⟨_, _, _, _, _, _, _, hfalse⟩ := h.exists_split
  hfalse

end PartialRun
