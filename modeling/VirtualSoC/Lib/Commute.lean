import VirtualSoC.Lib.Machine

/-!
# Inputs that commute

The inputs of a machine are of several kinds, and two inputs of different kinds may be swapped
(`Machine.Commutes`).  Then the order of the inputs of different kinds does not matter: the state
after a run depends on the inputs of each kind, in their order, only (`Commutes.run_eq`).
-/

namespace Machine

variable {σ ι ο κ : Type*} {M : Machine σ ι ο}

variable (M) in
/-- In the states of `I`, two inputs of `A` of different kinds may be swapped. -/
structure Commutes (I : σ → Prop) (A : ι → Prop) (kind : ι → κ) : Prop where
  keeps {s : σ} {i : ι} (hs : I s) (hi : A i) : I (M.next s i)
  swap {s : σ} {i j : ι} (hs : I s) (hi : A i) (hj : A j) (hne : kind i ≠ kind j) :
    M.next (M.next s i) j = M.next (M.next s j) i

namespace Commutes

variable {I : σ → Prop} {A : ι → Prop} {kind : ι → κ} (h : M.Commutes I A kind) {s : σ}

include h

theorem run_next (hs : I s) {i : ι} {js : List ι} (hi : A i) (hjs : ∀ j ∈ js, A j)
    (hne : ∀ j ∈ js, kind i ≠ kind j) : M.run (M.next s i) js = M.next (M.run s js) i := by
  induction js generalizing s with
  | nil => rfl
  | cons j js ih =>
    have hj := hjs j List.mem_cons_self
    have hrest := ih (h.keeps hs hj) (fun k hk => hjs k (List.mem_cons_of_mem j hk))
      fun k hk => hne k (List.mem_cons_of_mem j hk)
    calc M.run (M.next s i) (j :: js) = M.run (M.next (M.next s j) i) js :=
          congrArg (M.run · js) (h.swap hs hi hj (hne j List.mem_cons_self))
      _ = M.next (M.run (M.next s j) js) i := hrest

/-- **Runs with the same inputs of each kind end in the same state.** -/
theorem run_eq [DecidableEq κ] (hs : I s) {is js : List ι} (his : ∀ i ∈ is, A i)
    (hjs : ∀ j ∈ js, A j) (hkinds : ∀ k, is.filter (kind · = k) = js.filter (kind · = k)) :
    M.run s is = M.run s js := by
  induction is generalizing s js with
  | nil =>
    cases js with
    | nil => rfl
    | cons j js =>
      have hnil := hkinds (kind j)
      rw [List.filter_nil, List.filter_cons, if_pos (decide_eq_true rfl)] at hnil
      cases hnil
  | cons i is ih =>
    -- the first input of its kind in `js` moves to the front
    have hkind := hkinds (kind i)
    rw [List.filter_cons, if_pos (decide_eq_true rfl)] at hkind
    obtain ⟨pre, post, rfl, hpre, -, hpost⟩ := List.filter_eq_cons_iff.1 hkind.symm
    have hi := his i List.mem_cons_self
    have hne (j : ι) (hj : j ∈ pre) : kind j ≠ kind i := by simpa using hpre j hj
    have hA : ∀ j ∈ pre ++ post, A j := by
      intro j hj
      refine hjs j ?_
      rcases List.mem_append.1 hj with hj | hj
      · exact List.mem_append_left _ hj
      · exact List.mem_append_right _ (List.mem_cons_of_mem i hj)
    have hrest (k : κ) : is.filter (kind · = k) = (pre ++ post).filter (kind · = k) := by
      have hk := hkinds k
      rw [List.filter_append, List.filter_cons, List.filter_cons] at hk
      rw [List.filter_append]
      by_cases hik : kind i = k
      · subst hik
        have hnone : pre.filter (kind · = kind i) = [] :=
          List.filter_eq_nil_iff.2 fun j hj => by simpa using hne j hj
        rw [hnone, hpost, List.nil_append]
      · rw [if_neg (by simpa using hik), if_neg (by simpa using hik)] at hk
        exact hk
    have hfront := h.run_next hs hi (fun j hj => hA j (List.mem_append_left _ hj))
      fun j hj => (hne j hj).symm
    calc M.run s (i :: is) = M.run (M.next s i) (pre ++ post) :=
          ih (h.keeps hs hi) (fun j hj => his j (List.mem_cons_of_mem i hj)) hA hrest
      _ = M.run (M.next (M.run s pre) i) post := by rw [run_append, hfront]
      _ = M.run s (pre ++ i :: post) := by
          rw [run_append]
          rfl

end Commutes

end Machine
