import Mathlib.Data.Nat.Notation

/-!
# Copies between buffers of fixed length

`Buffer.copy` is `memcpy`: `k` elements of one buffer replace `k` elements of another.  It is
defined when both ranges lie inside their buffers, and only then (`copy_eq_none_iff`).

## Main results

* `read_write` : what was written is read back;
* `getElem?_of_copy` : the elements after a copy;
* `copy_copy` : a copy through an intermediate buffer is the direct copy.
-/

namespace Buffer

variable {α : Type*} {n m l k : ℕ}

/-- The `k` elements from `off` on. -/
def read (buf : Vector α n) (off k : ℕ) : Option (Vector α k) :=
  if h : off + k ≤ n then
    some (Vector.ofFn fun i =>
      have : off + i < n := by omega
      buf[off + i])
  else none

/-- The buffer with `xs` in place of the elements from `off` on. -/
def write (buf : Vector α n) (off : ℕ) (xs : Vector α k) : Option (Vector α n) :=
  if h : off + k ≤ n then
    some ⟨(buf.toList.take off ++ xs.toList ++ buf.toList.drop (off + k)).toArray, by simp; omega⟩
  else none

/-- `memcpy(dst + i, src + j, k)`. -/
def copy (dst : Vector α m) (i : ℕ) (src : Vector α n) (j k : ℕ) : Option (Vector α m) :=
  (read src j k).bind (write dst i)

variable {buf : Vector α n} {off : ℕ} {xs : Vector α k}

theorem read_eq_none_iff : read buf off k = none ↔ n < off + k := by
  unfold read
  split
  next h => exact iff_of_false nofun (Nat.not_lt.2 h)
  next h => exact iff_of_true rfl (Nat.lt_of_not_le h)

theorem write_eq_none_iff : write buf off xs = none ↔ n < off + k := by
  unfold write
  split
  next h => exact iff_of_false nofun (Nat.not_lt.2 h)
  next h => exact iff_of_true rfl (Nat.lt_of_not_le h)

theorem read_write {buf' : Vector α n} (h : write buf off xs = some buf') :
    read buf' off k = some xs := by
  unfold write at h
  split at h
  next hle =>
    cases h
    rw [read, dif_pos hle]
    refine congrArg some (Vector.ext fun i hi => ?_)
    simp [show off ≤ n by omega]
  next => cases h

variable {dst : Vector α m} {src : Vector α n} {i j : ℕ}

theorem copy_eq_none_iff : copy dst i src j k = none ↔ n < j + k ∨ m < i + k := by
  unfold copy
  cases hr : read src j k with
  | none => exact iff_of_true rfl (.inl (read_eq_none_iff.1 hr))
  | some xs =>
    have hj : ¬ n < j + k := fun h => nomatch hr.symm.trans (read_eq_none_iff.2 h)
    rw [Option.bind_some, write_eq_none_iff, or_iff_right hj]

theorem exists_copy (dst : Vector α m) (src : Vector α n) (hi : i + k ≤ m) (hj : j + k ≤ n) :
    ∃ d, copy dst i src j k = some d := by
  refine Option.ne_none_iff_exists'.1 fun h => ?_
  rcases copy_eq_none_iff.1 h with h | h <;> omega

theorem copy_copy {mid mid' : Vector α l} {o : ℕ} (h : copy mid o src j k = some mid') :
    copy dst i mid' o k = copy dst i src j k := by
  obtain ⟨xs, hr, hw⟩ := Option.bind_eq_some_iff.1 h
  rw [copy, copy, read_write hw, hr]

theorem getElem?_of_write {buf' : Vector α n} (h : write buf off xs = some buf') (p : ℕ) :
    buf'[p]? = if off ≤ p ∧ p < off + k then xs[p - off]? else buf[p]? := by
  unfold write at h
  split at h
  next hle =>
    cases h
    simp only [Vector.getElem?_mk, List.getElem?_toArray, List.append_assoc, List.getElem?_append,
      List.length_take, Vector.length_toList, List.getElem?_take, List.getElem?_drop,
      Vector.getElem?_toList]
    rw [Nat.min_eq_left (by omega)]
    by_cases hlow : p < off
    · rw [if_pos hlow, if_pos hlow, if_neg (by omega)]
    · by_cases hin : p < off + k
      · rw [if_neg hlow, if_pos (by omega), if_pos (by omega)]
      · rw [if_neg hlow, if_neg (by omega), if_neg (by omega)]
        exact congrArg _ (by omega)
  next => cases h

theorem getElem?_of_read (h : read buf off k = some xs) (p : ℕ) :
    xs[p]? = if p < k then buf[off + p]? else none := by
  unfold read at h
  split at h
  next hle =>
    cases h
    rw [Vector.getElem?_ofFn]
    by_cases hp : p < k
    · rw [dif_pos hp, if_pos hp, Vector.getElem?_eq_getElem]
    · rw [dif_neg hp, if_neg hp]
  next => cases h

theorem getElem?_of_copy {d : Vector α m} (h : copy dst i src j k = some d) (p : ℕ) :
    d[p]? = if i ≤ p ∧ p < i + k then src[j + (p - i)]? else dst[p]? := by
  obtain ⟨xs, hr, hw⟩ := Option.bind_eq_some_iff.1 h
  rw [getElem?_of_write hw, getElem?_of_read hr]
  by_cases hp : i ≤ p ∧ p < i + k
  · rw [if_pos hp, if_pos hp, if_pos (by omega)]
  · rw [if_neg hp, if_neg hp]

/-- A copy of a whole buffer over another of the same length. -/
theorem copy_self (dst src : Vector α k) : copy dst 0 src 0 k = some src := by
  have hread : read src 0 k = some src := by
    rw [read, dif_pos (by omega)]
    refine congrArg some (Vector.ext fun i hi => ?_)
    simp
  rw [copy, hread, Option.bind_some, write, dif_pos (by omega)]
  refine congrArg some (Vector.ext fun i hi => ?_)
  have hlen : i < src.toList.length := by simpa using hi
  simp [List.getElem_append_left hlen]

theorem copy_in_place (buf : Vector α n) (h : off + k ≤ n) :
    copy buf off buf off k = some buf := by
  obtain ⟨d, hd⟩ := exists_copy buf buf h h
  rw [hd]
  refine congrArg some (Vector.ext fun i hi => Option.some.inj ?_)
  have hget := getElem?_of_copy hd i
  rw [Vector.getElem?_eq_getElem hi] at hget
  rw [hget, ← Vector.getElem?_eq_getElem hi]
  split
  next hin => exact congrArg (buf[·]?) (by omega)
  next => rfl

end Buffer
