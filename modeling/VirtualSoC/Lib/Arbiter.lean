import Mathlib.Order.Lattice

/-!
# Arbitration

`Arbiter.pick` goes through a list of candidates once and keeps the best eligible one so far,
replacing it by strictly better ones only.  What it keeps is the first among the eligible
candidates of highest rank (`pick_eq`), if any of them beats the initial rank.
-/

namespace Arbiter

variable {ι κ : Type*} [LinearOrder κ] (ok : ι → Bool) (rank : ι → κ)

/-- One candidate against the best so far and its rank. -/
def better (best : ι × κ) (i : ι) : ι × κ :=
  if ok i ∧ rank i > best.2 then (i, rank i) else best

/-- The best of the candidates `l` and of `best`. -/
def pick (best : ι × κ) (l : List ι) : ι × κ := l.foldl (better ok rank) best

/-- `i` is the first eligible candidate of highest rank. -/
structure First (l : List ι) (i : ι) : Prop where
  eligible : ok i
  split : ∃ before after, l = before ++ i :: after ∧
    (∀ j ∈ before, ok j → rank j < rank i) ∧ ∀ j ∈ after, ok j → rank j ≤ rank i

variable {ok rank}

theorem First.cons {l : List ι} {i a : ι} (h : First ok rank l i)
    (ha : ok a → rank a < rank i) : First ok rank (a :: l) i := by
  obtain ⟨hok, before, after, rfl, hb, haf⟩ := h
  refine ⟨hok, a :: before, after, rfl, ?_, haf⟩
  intro j hj hokj
  rcases List.mem_cons.1 hj with rfl | hj
  · exact ha hokj
  · exact hb j hj hokj

theorem First.mem {l : List ι} {i : ι} (h : First ok rank l i) : i ∈ l := by
  obtain ⟨-, before, after, rfl, -⟩ := h
  simp

theorem First.le {l : List ι} {i j : ι} (h : First ok rank l i) (hj : j ∈ l) (hok : ok j) :
    rank j ≤ rank i := by
  obtain ⟨-, before, after, rfl, hb, ha⟩ := h
  rcases List.mem_append.1 hj with hj | hj
  · exact (hb j hj hok).le
  · rcases List.mem_cons.1 hj with rfl | hj
    · exact le_rfl
    · exact ha j hj hok

/-- In an ordered list, no eligible candidate before it ranks as high. -/
theorem First.eq_or_of_le {r : ι → ι → Prop} {l : List ι} {i j : ι} (h : First ok rank l i)
    (hl : l.Pairwise r) (hj : j ∈ l) (hok : ok j) (hle : rank i ≤ rank j) : j = i ∨ r i j := by
  obtain ⟨-, before, after, rfl, hb, -⟩ := h
  rcases List.mem_append.1 hj with hj | hj
  · exact absurd hle (not_le.2 (hb j hj hok))
  · rcases List.mem_cons.1 hj with rfl | hj
    · exact .inl rfl
    · exact .inr (List.rel_of_pairwise_cons (List.pairwise_append.1 hl).2.1 hj)

variable (ok rank) in
/-- **What is kept**: the initial value when no candidate beats it, else the first of the best. -/
theorem pick_eq (best : ι × κ) (l : List ι) :
    (pick ok rank best l = best ∧ ∀ i ∈ l, ok i → rank i ≤ best.2) ∨
      ∃ i, pick ok rank best l = (i, rank i) ∧ best.2 < rank i ∧ First ok rank l i := by
  induction l generalizing best with
  | nil => exact .inl ⟨rfl, nofun⟩
  | cons a l ih =>
    change (pick ok rank (better ok rank best a) l = best ∧ _) ∨
      ∃ i, pick ok rank (better ok rank best a) l = (i, rank i) ∧ _
    by_cases ha : ok a ∧ rank a > best.2
    · rw [better, if_pos ha]
      rcases ih (a, rank a) with ⟨hp, hle⟩ | ⟨i, hp, hlt, hi⟩
      · exact .inr ⟨a, hp, ha.2, ha.1, [], l, rfl, nofun, hle⟩
      · exact .inr ⟨i, hp, ha.2.trans hlt, hi.cons fun _ => hlt⟩
    · have hle : ok a → rank a ≤ best.2 := fun hok => not_lt.1 fun hlt => ha ⟨hok, hlt⟩
      rw [better, if_neg ha]
      rcases ih best with ⟨hp, hall⟩ | ⟨i, hp, hlt, hi⟩
      · refine .inl ⟨hp, fun i hi hok => ?_⟩
        rcases List.mem_cons.1 hi with rfl | hi
        · exact hle hok
        · exact hall i hi hok
      · exact .inr ⟨i, hp, hlt, hi.cons fun hok => (hle hok).trans_lt hlt⟩

end Arbiter
