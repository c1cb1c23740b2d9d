import Mathlib.Data.Nat.Notation

/-!
# Flat stores

A flat store has an element at every address.  Its content after a history of writes is, at each
address, the element that the last write to the address has put there (`lastWritten`), and the
initial element where there was none.

## Main results

* `lastWritten_snoc` : one more write;
* `Write.apply_of_covers`, `Write.apply_of_not_covers` : the elements after a write;
* `Filled.append` : a range filled piece by piece;
* `Filled.source_eq` : what a copy has not read yet is still there.
-/

namespace FlatStore

variable {α : Type*}

/-- A write of `len` elements from `addr` on. -/
structure Write (α : Type*) where
  addr : ℕ
  len : ℕ
  data : Vector α len

namespace Write

variable (w : Write α)

/-- The write reaches the address. -/
def Covers (a : ℕ) : Prop := w.addr ≤ a ∧ a < w.addr + w.len

instance (a : ℕ) : Decidable (w.Covers a) := inferInstanceAs (Decidable (_ ∧ _))

/-- The element that the write puts at the address. -/
def value? (a : ℕ) : Option α := if w.Covers a then w.data[a - w.addr]? else none

/-- The store after the write. -/
def apply (store : ℕ → α) (a : ℕ) : α := (w.value? a).getD (store a)

variable {w} {a : ℕ} {store : ℕ → α}

theorem apply_of_not_covers (h : ¬ w.Covers a) : w.apply store a = store a := by
  rw [apply, value?, if_neg h, Option.getD_none]

theorem apply_of_covers (h : w.Covers a) : w.data[a - w.addr]? = some (w.apply store a) := by
  have hlt : a - w.addr < w.len := by
    obtain ⟨hle, hlt⟩ := h
    omega
  rw [apply, value?, if_pos h, Vector.getElem?_eq_getElem hlt, Option.getD_some]

end Write

/-- What the last of the writes to the address has put there. -/
def lastWritten (init : ℕ → α) (ws : List (Write α)) (a : ℕ) : α :=
  (ws.reverse.findSome? (·.value? a)).getD (init a)

theorem lastWritten_snoc (init : ℕ → α) (ws : List (Write α)) (w : Write α) :
    lastWritten init (ws ++ [w]) = w.apply (lastWritten init ws) := by
  funext a
  simp only [lastWritten, List.reverse_append, List.reverse_singleton, List.singleton_append,
    List.findSome?_cons, Write.apply]
  cases w.value? a <;> rfl

/-! ### Filled ranges -/

variable {β : Type*}

/-- `f'` is `f` with `g 0`, …, `g (n - 1)` from `a` on. -/
structure Filled (f : ℕ → β) (a n : ℕ) (g : ℕ → β) (f' : ℕ → β) : Prop where
  inside : ∀ i < n, f' (a + i) = g i
  outside : ∀ i, ¬ (a ≤ i ∧ i < a + n) → f' i = f i

namespace Filled

variable {f f' f'' g g' : ℕ → β} {a n l : ℕ}

theorem nothing (f : ℕ → β) (a : ℕ) (g : ℕ → β) : Filled f a 0 g f where
  inside _ hi := absurd hi (Nat.not_lt_zero _)
  outside _ _ := rfl

theorem append (h : Filled f a n g f') (h' : Filled f' (a + n) l g' f'')
    (hg : ∀ i < l, g' i = g (n + i)) : Filled f a (n + l) g f'' where
  inside i hi := by
    by_cases hin : i < n
    · rw [h'.outside _ (by omega), h.inside i hin]
    · have hnext := h'.inside (i - n) (by omega)
      rwa [hg _ (by omega), Nat.add_assoc, Nat.add_sub_cancel' (by omega)] at hnext
  outside i hi := by rw [h'.outside i (by omega), h.outside i (by omega)]

/-- When a copy that goes upwards has reached `n`, the next `l` elements of its source are still
there, unless its destination begins inside them. -/
theorem source_eq {src : ℕ} (h : Filled f a n g f') (hsep : a ≤ src ∨ src + (n + l) ≤ a) {i : ℕ}
    (hi : i < l) : f' (src + n + i) = f (src + n + i) :=
  h.outside _ (by omega)

end Filled

end FlatStore
