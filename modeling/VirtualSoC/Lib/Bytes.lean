import Mathlib.Data.BitVec
import Mathlib.Data.Nat.Notation
import Mathlib.Logic.Function.Basic

/-!
# Little-endian access to a byte memory

A memory is a total function from `w`-bit addresses to bytes; addresses wrap around.  A value of
`v` bits is read from and written to `n` consecutive bytes, least significant byte first.

## Main results

* `getLsbD_readLE` : the bits of a value read;
* `writeLE_apply` : the bytes after a write;
* `readLE_writeLE` : a write is read back;
* `writeLE_readLE` : a write is undone by what was read before it;
* `readLE_congr`, `readLE_writeLE_of_disjoint`, `writeLE_comm` : the frame rules.

The bytes of a value that lies in a buffer are `toLE`, and `ofLE` is the value of such bytes.
-/

namespace Bytes

/-- Byte memories with `w`-bit addresses. -/
abbrev Mem (w : ℕ) := BitVec w → BitVec 8

variable {w v : ℕ} (m : Mem w)

/-- The value of the `n` bytes from `a` on, as `v` bits. -/
def readLE : BitVec w → ℕ → BitVec v
  | _, 0 => 0
  | a, n + 1 => (m a).setWidth v ||| readLE (a + 1) n <<< 8

/-- The memory after storing the low `n` bytes of `x` from `a` on. -/
def writeLE (m : Mem w) : BitVec w → BitVec v → ℕ → Mem w
  | _, _, 0 => m
  | a, x, n + 1 => writeLE (Function.update m a (x.setWidth 8)) (a + 1) (x >>> 8) n

/-- The low `n` bytes of `x`. -/
def toLE (x : BitVec v) (n : ℕ) : Vector (BitVec 8) n :=
  Vector.ofFn fun i => (x >>> (8 * i.1)).setWidth 8

/-- The value of the bytes `bs`. -/
def ofLE {n : ℕ} (bs : Vector (BitVec 8) n) : BitVec v :=
  bs.foldr (fun b x => b.setWidth v ||| x <<< 8) 0

/-! ### Reading -/

variable {m}

theorem getLsbD_readLE (a : BitVec w) (n i : ℕ) :
    (readLE m a n : BitVec v).getLsbD i =
      (decide (i < v) && decide (i < 8 * n) &&
        (m (a + BitVec.ofNat w (i / 8))).getLsbD (i % 8)) := by
  induction n generalizing a i with
  | zero => simp [readLE]
  | succ n ih =>
    simp only [readLE, BitVec.getLsbD_or, BitVec.getLsbD_setWidth, BitVec.getLsbD_shiftLeft, ih]
    by_cases h8 : i < 8
    · have : i / 8 = 0 := by omega
      have : i % 8 = i := by omega
      have : i < 8 * (n + 1) := by omega
      simp [*]
    · have hdiv : i / 8 = (i - 8) / 8 + 1 := by omega
      have hmod : (i - 8) % 8 = i % 8 := by omega
      have haddr : a + 1 + BitVec.ofNat w ((i - 8) / 8) = a + BitVec.ofNat w (i / 8) := by
        rw [hdiv, BitVec.ofNat_add, BitVec.add_assoc, BitVec.add_comm 1]
        rfl
      have hsub : i - 8 < 8 * n ↔ i < 8 * (n + 1) := by omega
      have hnone : (m a).getLsbD i = false := BitVec.getLsbD_of_ge _ _ (by omega)
      by_cases hv : i < v
      · rw [haddr, hmod]
        simp [hnone, h8, hsub, hv, show i - 8 < v by omega]
      · simp [hnone, hv]

theorem readLE_congr {m' : Mem w} {a : BitVec w} {n : ℕ}
    (h : ∀ k < n, m (a + BitVec.ofNat w k) = m' (a + BitVec.ofNat w k)) :
    (readLE m a n : BitVec v) = readLE m' a n := by
  refine BitVec.eq_of_getLsbD_eq fun i _ => ?_
  rw [getLsbD_readLE, getLsbD_readLE]
  by_cases hi : i < 8 * n
  · rw [h (i / 8) (by omega)]
  · simp [hi]

/-! ### Writing -/

theorem toNat_sub_succ {a b : BitVec w} (h : b ≠ a) :
    (b - a).toNat = (b - (a + 1)).toNat + 1 := by
  have hne : b - a ≠ 0 := fun h0 => h (BitVec.sub_eq_iff_eq_add.1 h0 |>.trans (by simp))
  have hpos : (b - a).toNat ≠ 0 := fun h0 => hne (BitVec.eq_of_toNat_eq (by simpa using h0))
  have hw : w ≠ 0 := by
    rintro rfl
    exact h (Subsingleton.elim _ _)
  have h1 : (1 : BitVec w).toNat = 1 := by simp [Nat.pos_of_ne_zero hw]
  have hle : (1 : BitVec w) ≤ b - a := by
    rw [BitVec.le_def, h1]
    omega
  rw [sub_add_eq_sub_sub, BitVec.toNat_sub_of_le hle, h1]
  omega

theorem toNat_self_sub_succ (a : BitVec w) : (a - (a + 1)).toNat = 2 ^ w - 1 := by
  have h : a - (a + 1) = BitVec.allOnes w := by
    rw [sub_add_eq_sub_sub, sub_self, zero_sub]
    exact BitVec.neg_one_eq_allOnes
  rw [h, BitVec.toNat_allOnes]

/-- The bytes after a write: those at distance below `n` from `a` come from the value. -/
theorem writeLE_apply {n : ℕ} (hn : n ≤ 2 ^ w) (a b : BitVec w) (x : BitVec v) :
    writeLE m a x n b =
      if (b - a).toNat < n then (x >>> (8 * (b - a).toNat)).setWidth 8 else m b := by
  induction n generalizing m a x with
  | zero => simp [writeLE]
  | succ n ih =>
    rw [writeLE, ih (by omega)]
    by_cases hab : b = a
    · subst hab
      have hlast : ¬ (b - (b + 1)).toNat < n := by
        rw [toNat_self_sub_succ]
        omega
      simp only [hlast, if_false, Function.update_self]
      simp
    · rw [toNat_sub_succ hab, Function.update_of_ne hab, Nat.mul_add, Nat.add_comm (8 * _) (8 * 1),
        BitVec.shiftRight_add]
      simp

theorem readLE_writeLE {n : ℕ} (hn : n ≤ 2 ^ w) (hv : v ≤ 8 * n) (a : BitVec w) (x : BitVec v) :
    readLE (writeLE m a x n) a n = x := by
  refine BitVec.eq_of_getLsbD_eq fun i hi => ?_
  have hk : i / 8 < n := by omega
  have hd : (a + BitVec.ofNat w (i / 8) - a).toNat = i / 8 := by
    rw [BitVec.add_comm, BitVec.add_sub_cancel, BitVec.toNat_ofNat, Nat.mod_eq_of_lt (by omega)]
  rw [getLsbD_readLE, writeLE_apply hn, hd, if_pos hk]
  have : 8 * (i / 8) + i % 8 = i := Nat.div_add_mod i 8
  simp [hi, this, show i < 8 * n by omega, Nat.mod_lt]

theorem readLE_writeLE_of_disjoint {n k : ℕ} {a b : BitVec w} (hn : n ≤ 2 ^ w)
    (h : ∀ i < k, n ≤ (b + BitVec.ofNat w i - a).toNat) (x : BitVec v) :
    (readLE (writeLE m a x n) b k : BitVec v) = readLE m b k := by
  refine readLE_congr fun i hi => ?_
  rw [writeLE_apply hn, if_neg (by have := h i hi; omega)]

/-- The bytes of a value read are those of the memory. -/
theorem byte_readLE {n k : ℕ} (hv : 8 * n ≤ v) (hk : k < n) (a : BitVec w) :
    ((readLE m a n : BitVec v) >>> (8 * k)).setWidth 8 = m (a + BitVec.ofNat w k) := by
  refine BitVec.eq_of_getLsbD_eq fun i hi => ?_
  have hdiv : (8 * k + i) / 8 = k := by omega
  have hmod : (8 * k + i) % 8 = i := by omega
  rw [BitVec.getLsbD_setWidth, BitVec.getLsbD_ushiftRight, getLsbD_readLE, hdiv, hmod]
  simp [hi, show 8 * k + i < v by omega, show 8 * k + i < 8 * n by omega]

theorem writeLE_self {n : ℕ} (hn : n ≤ 2 ^ w) (hv : 8 * n ≤ v) (a : BitVec w) :
    writeLE m a (readLE m a n : BitVec v) n = m := by
  funext b
  rw [writeLE_apply hn]
  split
  next h =>
    rw [byte_readLE hv h, BitVec.ofNat_toNat, BitVec.setWidth_eq, BitVec.add_comm,
      BitVec.sub_add_cancel]
  next h => rfl

theorem writeLE_readLE {n : ℕ} (hn : n ≤ 2 ^ w) (hv : 8 * n ≤ v) (a : BitVec w) (x : BitVec v) :
    writeLE (writeLE m a x n) a (readLE m a n : BitVec v) n = m := by
  funext b
  have hself := congrFun (writeLE_self (m := m) hn hv a) b
  rw [writeLE_apply hn] at hself ⊢
  split
  next h => rwa [if_pos h] at hself
  next h => rw [writeLE_apply hn, if_neg h]

theorem writeLE_comm {n k : ℕ} {a b : BitVec w} (hn : n ≤ 2 ^ w) (hk : k ≤ 2 ^ w)
    (h : ∀ p : BitVec w, ¬ ((p - a).toNat < n ∧ (p - b).toNat < k)) (x y : BitVec v) :
    writeLE (writeLE m a x n) b y k = writeLE (writeLE m b y k) a x n := by
  funext p
  simp only [writeLE_apply hn, writeLE_apply hk]
  by_cases ha : (p - a).toNat < n
  · rw [if_neg fun hb => h p ⟨ha, hb⟩, if_pos ha, if_pos ha]
  · rw [if_neg ha, if_neg ha]

/-! ### Values in a buffer -/

theorem ofLE_eq_foldr {n : ℕ} (bs : Vector (BitVec 8) n) :
    (ofLE bs : BitVec v) =
      bs.toList.foldr (fun b (x : BitVec v) => b.setWidth v ||| x <<< 8) 0 := by
  rw [ofLE, Vector.foldr_toList]

theorem getLsbD_ofLE {n : ℕ} (bs : Vector (BitVec 8) n) {k : ℕ} (hk : k < v) :
    (ofLE bs : BitVec v).getLsbD k = (bs[k / 8]?.getD 0).getLsbD (k % 8) := by
  rw [ofLE_eq_foldr, ← Vector.getElem?_toList]
  generalize bs.toList = l
  induction l generalizing k with
  | nil => simp
  | cons b l ih =>
    rw [List.foldr_cons, BitVec.getLsbD_or, BitVec.getLsbD_setWidth, BitVec.getLsbD_shiftLeft]
    by_cases h8 : k < 8
    · rw [Nat.div_eq_of_lt h8, Nat.mod_eq_of_lt h8]
      simp [h8, hk]
    · have hdiv : k / 8 = (k - 8) / 8 + 1 := by omega
      have hmod : k % 8 = (k - 8) % 8 := by omega
      have hnone : b.getLsbD k = false := BitVec.getLsbD_of_ge _ _ (by omega)
      rw [ih (by omega), hdiv, List.getElem?_cons_succ, ← hmod]
      simp [h8, hk, hnone]

theorem getLsbD_foldr_ofFn (x : BitVec v) (n k : ℕ) (hk : k < v) :
    ((List.ofFn fun i : Fin n => (x >>> (8 * i.1)).setWidth 8).foldr
      (fun b (x : BitVec v) => b.setWidth v ||| x <<< 8) 0).getLsbD k =
      (decide (k < 8 * n) && x.getLsbD k) := by
  induction n generalizing x k with
  | zero => simp
  | succ n ih =>
    rw [List.ofFn_succ, List.foldr_cons, BitVec.getLsbD_or, BitVec.getLsbD_shiftLeft]
    have hshift : (fun i : Fin n => (x >>> (8 * i.succ.1)).setWidth 8) =
        fun i : Fin n => ((x >>> 8) >>> (8 * i.1)).setWidth 8 := by
      funext i
      rw [← BitVec.shiftRight_add, Fin.val_succ, Nat.mul_add, Nat.add_comm]
    rw [hshift]
    by_cases h8 : k < 8
    · have hk' : k < 8 * (n + 1) := by omega
      simp [h8, hk, hk']
    · rw [ih _ _ (by omega)]
      have hsub : k - 8 < 8 * n ↔ k < 8 * (n + 1) := by omega
      simp [h8, hk, hsub, show 8 + (k - 8) = k by omega]

theorem ofLE_toLE (x : BitVec v) {n : ℕ} (hv : v ≤ 8 * n) : ofLE (toLE x n) = x := by
  refine BitVec.eq_of_getLsbD_eq fun k hk => ?_
  rw [ofLE_eq_foldr, toLE, Vector.toList_ofFn, getLsbD_foldr_ofFn x n k hk]
  simp [show k < 8 * n by omega]

end Bytes
