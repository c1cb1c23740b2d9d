import Mathlib.Tactic.IntervalCases

/-!
# Bit fields of bit vectors

A field of `n` bits at offset `s` is `x.extractLsb' s n`.  Programs read it with a shift and a
mask; the lemmas here turn such reads into fields, and compare a zero-extended field with a
constant by comparing the field itself.
-/

namespace Bits

variable {w n : ℕ}

/-- A shift followed by a mask of `n` low ones reads the field of `n` bits at `s`. -/
theorem ushiftRight_and_ones (x : BitVec w) (s : ℕ) :
    (x >>> s) &&& (BitVec.allOnes n).setWidth w = (x.extractLsb' s n).setWidth w := by
  apply BitVec.eq_of_getElem_eq
  intro i hi
  simp only [BitVec.getElem_and, BitVec.getElem_ushiftRight, BitVec.getElem_setWidth,
    BitVec.getLsbD_allOnes, BitVec.getLsbD_extractLsb']
  exact Bool.and_comm _ _

theorem and_ones (x : BitVec w) :
    x &&& (BitVec.allOnes n).setWidth w = (x.extractLsb' 0 n).setWidth w := by
  simpa using ushiftRight_and_ones (n := n) x 0

theorem setWidth_inj (h : n ≤ w) {x y : BitVec n} : x.setWidth w = y.setWidth w ↔ x = y := by
  refine ⟨fun he => ?_, fun he => he ▸ rfl⟩
  have ht := congrArg (BitVec.setWidth n) he
  simpa [BitVec.setWidth_setWidth_of_le _ h] using ht

/-- A zero-extended field equals a constant only if the field equals the truncated constant. -/
theorem eq_setWidth_of_setWidth_eq (h : n ≤ w) {x : BitVec n} {c : BitVec w}
    (he : x.setWidth w = c) : x = c.setWidth n := by
  rw [← he, BitVec.setWidth_setWidth_of_le _ h, BitVec.setWidth_eq]

/-- A vector with clear low bits is a multiple of a power of two. -/
theorem and_low_eq_zero_iff (x : BitVec w) {k : ℕ} (hk : k < w) :
    x &&& BitVec.ofNat w (2 ^ k - 1) = 0 ↔ 2 ^ k ∣ x.toNat := by
  have hlt : 2 ^ k - 1 < 2 ^ w :=
    Nat.lt_of_le_of_lt (Nat.sub_le _ _) (Nat.pow_lt_pow_right (by decide) hk)
  rw [BitVec.toNat_eq, BitVec.toNat_and, BitVec.toNat_ofNat, Nat.mod_eq_of_lt hlt,
    Nat.and_two_pow_sub_one_eq_mod, Nat.dvd_iff_mod_eq_zero]
  simp

/-! ### Case distinctions on short vectors -/

theorem cases_three : ∀ x : BitVec 3,
    x = 0 ∨ x = 1 ∨ x = 2 ∨ x = 3 ∨ x = 4 ∨ x = 5 ∨ x = 6 ∨ x = 7 := by
  decide

theorem cases_two : ∀ x : BitVec 2, x = 0 ∨ x = 1 ∨ x = 2 ∨ x = 3 := by
  decide

theorem cases_one : ∀ x : BitVec 1, x = 0 ∨ x = 1 := by
  decide

/-! ### Masks -/

/-- `x` has no bit outside `c`. -/
def Within (c x : BitVec w) : Prop := x &&& ~~~c = 0

instance (c x : BitVec w) : Decidable (Within c x) := inferInstanceAs (Decidable (_ = _))

namespace Within

variable {m x y : BitVec w}

theorem getElem_eq_false (h : Within m x) {i : ℕ} (hi : i < w) (hc : m[i] = false) :
    x[i] = false := by
  have hx := congrArg (fun z : BitVec w => z[i]) h
  simpa [hc] using hx

theorem of_getElem (h : ∀ (i : ℕ) (hi : i < w), m[i] = false → x[i] = false) : Within m x := by
  unfold Within
  ext i hi
  cases hc : m[i] with
  | true => simp [hc]
  | false => simp [h i hi hc]

theorem or (hx : Within m x) (hy : Within m y) : Within m (x ||| y) :=
  of_getElem fun i hi hc => by simp [hx.getElem_eq_false hi hc, hy.getElem_eq_false hi hc]

theorem and_left (hx : Within m x) (y : BitVec w) : Within m (x &&& y) :=
  of_getElem fun i hi hc => by simp [hx.getElem_eq_false hi hc]

theorem and_right (y : BitVec w) (hx : Within m x) : Within m (y &&& x) :=
  of_getElem fun i hi hc => by simp [hx.getElem_eq_false hi hc]

end Within

/-- Clearing bits outside a mask does not change the bits under it. -/
theorem and_and_of_subset {x k m : BitVec w} (hk : k &&& m = m) : (x &&& k) &&& m = x &&& m := by
  rw [BitVec.and_assoc, hk]

theorem and_not_of_and_eq_zero {x m : BitVec w} (h : x &&& m = 0) : x &&& ~~~m = x := by
  ext i hi
  have hi' : (x[i] && m[i]) = false := by
    simpa using congrArg (fun y : BitVec w => y[i]) h
  rw [BitVec.getElem_and, BitVec.getElem_not]
  cases hx : x[i] with
  | false => rfl
  | true =>
    rw [hx, Bool.true_and] at hi'
    rw [hi']
    rfl

/-- Setting bits outside a mask does not change the bits under it. -/
theorem or_and_of_disjoint {x r m : BitVec w} (hr : r &&& m = 0) : (x ||| r) &&& m = x &&& m := by
  ext i hi
  have hri : (r[i] && m[i]) = false := by
    simpa using congrArg (fun y : BitVec w => y[i]) hr
  rw [BitVec.getElem_and, BitVec.getElem_or, BitVec.getElem_and, Bool.and_or_distrib_right, hri,
    Bool.or_false]

theorem or_and_and_of_disjoint {x r k m : BitVec w} (hr : r &&& m = 0) (hk : k &&& m = m) :
    ((x ||| r) &&& k) &&& m = x &&& m := by
  rw [and_and_of_subset hk, or_and_of_disjoint hr]

/-- Writing bits outside a mask does not change the bits under it. -/
theorem and_or_and_of_disjoint {x k r m : BitVec w} (hr : r &&& m = 0) (hk : k &&& m = m) :
    ((x &&& k) ||| r) &&& m = x &&& m := by
  rw [or_and_of_disjoint hr, and_and_of_subset hk]

theorem or_eq_self_of_subset {x m : BitVec w} (h : x &&& m = m) : x ||| m = x := by
  ext i hi
  have hi' : (x[i] && m[i]) = m[i] := by
    rw [← BitVec.getElem_and]
    exact congrArg (fun y : BitVec w => y[i]) h
  rw [BitVec.getElem_or, ← hi']
  cases x[i] <;> simp

theorem or_and_of_subset {x r m : BitVec w} (h : x &&& m = m) : (x ||| r) &&& m = m := by
  ext i hi
  have hi' : (x[i] && m[i]) = m[i] := by
    rw [← BitVec.getElem_and]
    exact congrArg (fun y : BitVec w => y[i]) h
  rw [BitVec.getElem_and, BitVec.getElem_or, Bool.and_or_distrib_right, hi']
  cases m[i] <;> simp

theorem and_twoPow_eq_zero (x : BitVec w) {i : ℕ} (hi : i < w) :
    x &&& BitVec.twoPow w i = 0 ↔ x.getLsbD i = false := by
  rw [BitVec.and_twoPow]
  cases x.getLsbD i with
  | false => exact iff_of_true rfl rfl
  | true =>
    refine iff_of_false (fun h => ?_) Bool.noConfusion
    have hbit := congrArg (BitVec.getLsbD · i) h
    simp [hi] at hbit

theorem and_twoPow_of_ne_zero {x : BitVec w} {i : ℕ} (h : x &&& BitVec.twoPow w i ≠ 0) :
    x &&& BitVec.twoPow w i = BitVec.twoPow w i := by
  rw [BitVec.and_twoPow] at h ⊢
  by_cases hx : x.getLsbD i
  · exact if_pos hx
  · rw [if_neg hx] at h
    exact absurd rfl h

/-- Clearing the bits of a mask and putting `r` in their place. -/
theorem clear_or_and {x r m : BitVec w} (hr : r &&& m = r) : ((x &&& ~~~m) ||| r) &&& m = r := by
  ext i hi
  have hri : (r[i] && m[i]) = r[i] := by
    rw [← BitVec.getElem_and]
    exact congrArg (fun y : BitVec w => y[i]) hr
  rw [BitVec.getElem_and, BitVec.getElem_or, Bool.and_or_distrib_right, hri]
  cases hc : m[i] <;> simp [hc]

/-! ### A flag stack of depth two

A flag `e`, a saved flag `p` and a field `c`, all in one word: pushing saves the flag, clears it and
puts `r` into the field; popping restores the flag, sets the saved flag and clears the field. -/

/-- Save the flag `e` in `p`, clear `e`, and put `r` into the field `c`. -/
def push (e p c r x : BitVec w) : BitVec w :=
  ((((x &&& ~~~p) ||| (if x &&& e ≠ 0 then p else 0)) &&& ~~~e) &&& ~~~c) ||| r

/-- Restore the flag `e` from `p`, set `p`, and clear the field `c`. -/
def pop (e p c x : BitVec w) : BitVec w :=
  (((x &&& ~~~e) ||| (if x &&& p ≠ 0 then e else 0)) ||| p) &&& ~~~c

theorem push_and {e p m r : BitVec w} (hep : ~~~e &&& p = p) (hcp : ~~~m &&& p = p)
    (hrp : r &&& p = 0) (x : BitVec w) :
    push e p m r x &&& p = if x &&& e ≠ 0 then p else 0 := by
  rw [push, and_or_and_of_disjoint hrp hcp, and_and_of_subset hep, clear_or_and]
  split
  · exact BitVec.and_self
  · exact BitVec.zero_and

theorem push_and_flag {e p m r : BitVec w} (hr : r &&& e = 0) (x : BitVec w) :
    push e p m r x &&& e = 0 := by
  rw [push, or_and_of_disjoint hr]
  ext i hi
  simp only [BitVec.getElem_and, BitVec.getElem_not]
  cases e[i]
  · simp
  · simp

/-- Popping undoes a push, but for the saved flag and the field. -/
theorem pop_push {e p m r x : BitVec w} (he : x &&& e ≠ 0 → x &&& e = e) (hp : p ≠ 0)
    (hep : ~~~e &&& p = p) (hcp : ~~~m &&& p = p) (hrp : r &&& p = 0) (hrc : r &&& ~~~m = 0) :
    pop e p m (push e p m r x) = (x ||| p) &&& ~~~m := by
  have hflag : push e p m r x &&& p ≠ 0 ↔ x &&& e ≠ 0 := by
    rw [push_and hep hcp hrp]
    split
    next h => exact iff_of_true hp h
    next h => exact iff_of_false (fun h0 => h0 rfl) h
  have hsel : x &&& e = if x &&& e ≠ 0 then e else 0 := by
    split
    next h => exact he h
    next h => exact not_not.1 h
  rw [pop]
  simp only [hflag]
  unfold push
  ext i hi
  have bit {a b y : BitVec w} (h : a &&& b = y) : (a[i] && b[i]) = y[i] := by
    rw [← BitVec.getElem_and]
    exact congrArg (fun y : BitVec w => y[i]) h
  have h1 := bit hsel
  have h2 := bit hep
  have h3 := bit hrc
  have hzero : (0 : BitVec w)[i] = false := by simp
  have hite (y : BitVec w) :
      (if x &&& e ≠ 0 then y else 0)[i] = (decide (x &&& e ≠ 0) && y[i]) := by
    by_cases hx : x &&& e ≠ 0
    · rw [if_pos hx, decide_eq_true hx, Bool.true_and]
    · rw [if_neg hx, decide_eq_false hx, Bool.false_and, hzero]
  simp only [hite, hzero, BitVec.getElem_not, BitVec.getElem_and, BitVec.getElem_or]
    at h1 h2 h3 ⊢
  revert h1 h2 h3
  generalize decide (x &&& e ≠ 0) = y, x[i] = a, e[i] = b, p[i] = d, m[i] = f, r[i] = g
  revert y a b d f g
  decide

end Bits
