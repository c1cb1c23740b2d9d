import Mathlib.Data.List.Induction

/-!
# Deterministic machines and their runs

A machine consumes inputs one at a time and emits an output at each step.  Nondeterminism of a
modelled system (interleavings, oracles) is part of the inputs, so a statement about every run is
a statement about every input list.

## Main definitions

* `Machine.run`, `Machine.trace` : the state after, and the outputs of, a list of inputs;
* `Machine.log event s is` : the events of the steps, in order;
* `Machine.Along C s is` : every step of the run satisfies the step condition `C`;
* `Machine.Since P barrier s is` : `P` held at some moment of the run with no barrier step after
  it;
* `Machine.AlongSince C barrier s is` : every step after the last barrier satisfies `C`;
* `Machine.Last P barrier s is` : a step of the kind `P` has been taken, and no barrier after it.
-/

/-- A machine with states `σ`, inputs `ι` and outputs `ο`. -/
structure Machine (σ ι ο : Type*) where
  /-- One step: the next state and the output. -/
  step : σ → ι → σ × ο

namespace Machine

variable {σ ι ο ε : Type*} (M : Machine σ ι ο)

/-- The next state. -/
def next (s : σ) (i : ι) : σ := (M.step s i).1

/-- The output of a step. -/
def out (s : σ) (i : ι) : ο := (M.step s i).2

/-- The state after a list of inputs. -/
def run (s : σ) : List ι → σ
  | [] => s
  | i :: is => run (M.next s i) is

/-- The outputs of a list of inputs. -/
def trace (s : σ) : List ι → List ο
  | [] => []
  | i :: is => M.out s i :: trace (M.next s i) is

/-- Every step of the run satisfies `C`. -/
def Along (C : σ → ι → Prop) (s : σ) : List ι → Prop
  | [] => True
  | i :: is => C s i ∧ Along C (M.next s i) is

instance instDecidableAlong {C : σ → ι → Prop} [∀ s i, Decidable (C s i)] (s : σ) (is : List ι) :
    Decidable (M.Along C s is) :=
  match is with
  | [] => isTrue trivial
  | i :: is =>
    have := instDecidableAlong (C := C) (M.next s i) is
    inferInstanceAs (Decidable (C s i ∧ M.Along C (M.next s i) is))

variable {M}

theorem run_append (s : σ) (is js : List ι) : M.run s (is ++ js) = M.run (M.run s is) js := by
  induction is generalizing s with
  | nil => rfl
  | cons i is ih => exact ih _

theorem run_snoc (s : σ) (is : List ι) (i : ι) :
    M.run s (is ++ [i]) = M.next (M.run s is) i :=
  run_append s is [i]

theorem trace_append (s : σ) (is js : List ι) :
    M.trace s (is ++ js) = M.trace s is ++ M.trace (M.run s is) js := by
  induction is generalizing s with
  | nil => rfl
  | cons i is ih => exact congrArg (M.out s i :: ·) (ih _)

theorem trace_snoc (s : σ) (is : List ι) (i : ι) :
    M.trace s (is ++ [i]) = M.trace s is ++ [M.out (M.run s is) i] :=
  trace_append s is [i]

theorem along_append {C : σ → ι → Prop} {s : σ} {is js : List ι} :
    M.Along C s (is ++ js) ↔ M.Along C s is ∧ M.Along C (M.run s is) js := by
  induction is generalizing s with
  | nil => simp [Along, run]
  | cons i is ih => simp [Along, run, ih, and_assoc]

theorem along_snoc {C : σ → ι → Prop} {s : σ} {is : List ι} {i : ι} :
    M.Along C s (is ++ [i]) ↔ M.Along C s is ∧ C (M.run s is) i := by
  simp [along_append, Along]

theorem Along.and {C D : σ → ι → Prop} {s : σ} {is : List ι} (hC : M.Along C s is)
    (hD : M.Along D s is) : M.Along (fun s i => C s i ∧ D s i) s is := by
  induction is generalizing s with
  | nil => trivial
  | cons i is ih => exact ⟨⟨hC.1, hD.1⟩, ih hC.2 hD.2⟩

theorem Along.mono {C D : σ → ι → Prop} {s : σ} {is : List ι} (h : M.Along C s is)
    (hCD : ∀ s i, C s i → D s i) : M.Along D s is := by
  induction is generalizing s with
  | nil => trivial
  | cons i is ih => exact ⟨hCD s i h.1, ih h.2⟩

variable (M) in
/-- Every step of the run passes the test. -/
def tests (f : σ → ι → Bool) : σ → List ι → Bool
  | _, [] => true
  | s, i :: is => f s i && tests f (M.next s i) is

theorem along_of_tests {C : σ → ι → Prop} {f : σ → ι → Bool} (hf : ∀ s i, f s i → C s i) {s : σ}
    {is : List ι} (h : M.tests f s is) : M.Along C s is := by
  induction is generalizing s with
  | nil => trivial
  | cons i is ih =>
    obtain ⟨hi, his⟩ := (Bool.and_eq_true _ _).mp h
    exact ⟨hf s i hi, ih his⟩

theorem along_of_forall {C : σ → ι → Prop} (h : ∀ s i, C s i) (s : σ) (is : List ι) :
    M.Along C s is := by
  induction is generalizing s with
  | nil => trivial
  | cons i is ih => exact ⟨h s i, ih _⟩

theorem along_of_mem {C : ι → Prop} {is : List ι} (h : ∀ i ∈ is, C i) (s : σ) :
    M.Along (fun _ i => C i) s is := by
  induction is generalizing s with
  | nil => trivial
  | cons i is ih =>
    exact ⟨h i List.mem_cons_self, ih (fun j hj => h j (List.mem_cons_of_mem i hj)) _⟩

/-! ### Event logs -/

variable (M) in
/-- The events of the steps of a run. -/
def log (event : σ → ι → Option ε) (s : σ) : List ι → List ε
  | [] => []
  | i :: is => (event s i).toList ++ log event (M.next s i) is

theorem log_snoc (event : σ → ι → Option ε) (s : σ) (is : List ι) (i : ι) :
    M.log event s (is ++ [i]) = M.log event s is ++ (event (M.run s is) i).toList := by
  induction is generalizing s with
  | nil => simp [log, run]
  | cons j is ih => simp only [List.cons_append, log, run, ih, List.append_assoc]

/-! ### Invariants -/

/-- What holds initially and is kept by every step that satisfies `C` holds after every run along
`C`. -/
theorem run_invariant_along {C : σ → ι → Prop} {I : σ → Prop} {s : σ} {is : List ι} (h₀ : I s)
    (hstep : ∀ s i, I s → C s i → I (M.next s i)) (h : M.Along C s is) : I (M.run s is) := by
  induction is generalizing s with
  | nil => exact h₀
  | cons i is ih => exact ih (hstep s i h₀ h.1) h.2

/-- Under an invariant, a step condition carries over from one property of steps to another. -/
theorem along_of_invariant_along {C D : σ → ι → Prop} {I : σ → Prop} {s : σ} {is : List ι}
    (h₀ : I s) (hstep : ∀ s i, I s → C s i → I (M.next s i))
    (hD : ∀ s i, I s → C s i → D s i) (h : M.Along C s is) : M.Along D s is := by
  induction is generalizing s with
  | nil => trivial
  | cons i is ih => exact ⟨hD s i h₀ h.1, ih (hstep s i h₀ h.1) h.2⟩

/-- What holds initially and is kept by every step holds after every run. -/
theorem run_invariant {I : σ → Prop} {s : σ} (h₀ : I s) (hstep : ∀ s i, I s → I (M.next s i))
    (is : List ι) : I (M.run s is) :=
  run_invariant_along (C := fun _ _ => True) h₀ (fun s i hs _ => hstep s i hs)
    (along_of_forall (fun _ _ => trivial) s is)

/-! ### Moments since a barrier -/

variable (M) in
/-- `P` held at some moment of the run that no barrier step follows. -/
def Since (P : σ → Prop) (barrier : σ → ι → Prop) (s : σ) (is : List ι) : Prop :=
  ∃ pre post, is = pre ++ post ∧ M.Along (fun s i => ¬ barrier s i) (M.run s pre) post ∧
    P (M.run s pre)

variable (M) in
/-- Every step that no barrier step follows, and that is none itself, satisfies `C`. -/
def AlongSince (C barrier : σ → ι → Prop) (s : σ) (is : List ι) : Prop :=
  ∀ pre post, is = pre ++ post → M.Along (fun s i => ¬ barrier s i) (M.run s pre) post →
    M.Along C (M.run s pre) post

theorem Along.alongSince {C barrier : σ → ι → Prop} {s : σ} {is : List ι} (h : M.Along C s is) :
    M.AlongSince C barrier s is := by
  rintro pre post rfl -
  exact (along_append.1 h).2

namespace Since

variable {P Q : σ → Prop} {barrier : σ → ι → Prop} {s : σ} {is : List ι}

theorem now (h : P (M.run s is)) : M.Since P barrier s is :=
  ⟨is, [], by simp, trivial, h⟩

/-- A step that is no barrier keeps the earlier moments. -/
theorem snoc {i : ι} (hi : ¬ barrier (M.run s is) i) (h : M.Since P barrier s is) :
    M.Since P barrier s (is ++ [i]) := by
  obtain ⟨pre, post, rfl, hpost, hP⟩ := h
  rw [run_append] at hi
  exact ⟨pre, post ++ [i], by simp, along_snoc.2 ⟨hpost, hi⟩, hP⟩

theorem mono (h : M.Since P barrier s is) (hPQ : ∀ s, P s → Q s) : M.Since Q barrier s is := by
  obtain ⟨pre, post, his, hpost, hP⟩ := h
  exact ⟨pre, post, his, hpost, hPQ _ hP⟩

/-- What held since the last barrier holds now, if the steps since then keep it. -/
theorem persist {C : σ → ι → Prop} (h : M.Since P barrier s is)
    (hC : M.AlongSince C barrier s is)
    (hstep : ∀ s i, P s → C s i → ¬ barrier s i → P (M.next s i)) : P (M.run s is) := by
  obtain ⟨pre, post, rfl, hpost, hP⟩ := h
  rw [run_append]
  have hsteps := (hC pre post rfl hpost).and hpost
  exact run_invariant_along hP (fun s i hs hi => hstep s i hs hi.1 hi.2) hsteps

end Since

/-! ### Steps since a barrier -/

variable (M) in
/-- A step of the kind `P` has been taken, and no barrier after it. -/
def Last (P barrier : σ → ι → Prop) (s : σ) (is : List ι) : Prop :=
  ∃ pre i post, is = pre ++ i :: post ∧ P (M.run s pre) i ∧
    M.Along (fun s i => ¬ barrier s i) (M.next (M.run s pre) i) post

namespace Last

variable {P barrier : σ → ι → Prop} {s : σ} {is : List ι} {i : ι}

theorem now (h : P (M.run s is) i) : M.Last P barrier s (is ++ [i]) :=
  ⟨is, i, [], rfl, h, trivial⟩

/-- A step that is no barrier keeps the earlier ones. -/
theorem snoc (hi : ¬ barrier (M.run s is) i) (h : M.Last P barrier s is) :
    M.Last P barrier s (is ++ [i]) := by
  obtain ⟨pre, j, post, rfl, hP, hpost⟩ := h
  rw [run_append] at hi
  exact ⟨pre, j, post ++ [i], by simp, hP, along_snoc.2 ⟨hpost, hi⟩⟩

theorem snoc_iff : M.Last P barrier s (is ++ [i]) ↔
    P (M.run s is) i ∨ ¬ barrier (M.run s is) i ∧ M.Last P barrier s is := by
  refine ⟨?_, fun h => h.elim now fun h => h.2.snoc h.1⟩
  rintro ⟨pre, j, post, hsplit, hP, hpost⟩
  -- either the step is the last one, or there is one after it
  rcases List.eq_nil_or_concat post with rfl | ⟨post, k, rfl⟩
  · obtain ⟨rfl, hij⟩ := List.append_inj' hsplit rfl
    cases hij
    exact .inl hP
  · rw [List.concat_eq_append, ← List.cons_append, ← List.append_assoc] at hsplit
    obtain ⟨rfl, hik⟩ := List.append_inj' hsplit rfl
    cases hik
    rw [List.concat_eq_append] at hpost
    obtain ⟨hpost, hk⟩ := along_snoc.1 hpost
    rw [run_append]
    exact .inr ⟨hk, pre, j, post, rfl, hP, hpost⟩

theorem not_nil : ¬ M.Last P barrier s [] := by
  rintro ⟨pre, j, post, h, -⟩
  cases pre <;> cases h

end Last

end Machine
