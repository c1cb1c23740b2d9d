import Mathlib.Algebra.Group.Basic
import Mathlib.Data.Int.Cast.Defs
import VirtualSoC.Lib.Machine

/-!
# Counters of a machine

A quantity that every step increments or leaves alone, as an event of the step tells
(`Machine.Counts`), is the number of these events after any run (`Machine.run_counts`).  It is the
number of another kind of events after every run exactly when no step tells the two kinds apart
(`Machine.counts_iff`): the first step that does shows at once.
-/

namespace Machine

variable {σ ι ο R : Type*} (M : Machine σ ι ο)

/-- The step increments `f` if its output is a `p`, and leaves it alone otherwise. -/
def Counts [AddMonoidWithOne R] (f : σ → R) (p : ο → Bool) (s : σ) (i : ι) : Prop :=
  f (M.next s i) = f s + if p (M.out s i) then 1 else 0

variable {M}

theorem run_counts [AddMonoidWithOne R] {f : σ → R} {p : ο → Bool} {s : σ} {is : List ι}
    (h : M.Along (M.Counts f p) s is) : f (M.run s is) = f s + (M.trace s is).countP p := by
  induction is generalizing s with
  | nil => simp [run, trace]
  | cons i is ih =>
    have hstep : f (M.next s i) = f s + if p (M.out s i) then 1 else 0 := h.1
    rw [run, ih h.2, hstep, trace, List.countP_cons, Nat.add_comm, Nat.cast_add, add_assoc,
      Nat.cast_ite, Nat.cast_one, Nat.cast_zero]

section Distinguish

variable [AddGroupWithOne R] [NeZero (1 : R)] {f : σ → R} {p q : ο → Bool} {s : σ}

/-- A step that increments a counter of `p` is told from one that does not. -/
theorem counts_congr_iff {i : ι} (h : M.Counts f p s i) :
    M.Counts f q s i ↔ p (M.out s i) = q (M.out s i) := by
  have h₀ : (0 : R) ≠ 1 := (NeZero.ne 1).symm
  unfold Counts at *
  rw [h, add_right_inj]
  cases p (M.out s i) <;> cases q (M.out s i) <;> simp [h₀, h₀.symm]

/-- A counter of `p` is a counter of `q` in every prefix exactly when no step tells them apart. -/
theorem counts_iff {is : List ι} (h : M.Along (M.Counts f p) s is) :
    (∀ pre, pre <+: is → f (M.run s pre) = f s + (M.trace s pre).countP q) ↔
      M.Along (fun s i => p (M.out s i) = q (M.out s i)) s is := by
  constructor
  · intro hall
    induction is generalizing s with
    | nil => trivial
    | cons i is ih =>
      have hq : M.Counts f q s i := by
        have hone := hall [i] ⟨is, rfl⟩
        rwa [run, run, trace, trace, List.countP_singleton, Nat.cast_ite, Nat.cast_one,
          Nat.cast_zero] at hone
      refine ⟨(counts_congr_iff h.1).1 hq, ih h.2 ?_⟩
      intro pre hpre
      have hcons := hall (i :: pre) ((List.prefix_cons_inj i).2 hpre)
      rwa [run, trace, List.countP_cons, Nat.add_comm, Nat.cast_add, Nat.cast_ite, Nat.cast_one,
        Nat.cast_zero, ← add_assoc, ← hq] at hcons
  · rintro hall pre ⟨post, rfl⟩
    have hpq := ((along_append.1 h).1.and (along_append.1 hall).1)
    exact run_counts (hpq.mono fun s i hi => (counts_congr_iff hi.1).2 hi.2)

end Distinguish

end Machine
