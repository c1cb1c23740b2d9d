import Mathlib.Data.BitVec
import Mathlib.Data.Nat.Notation

/-!
# Numbers in base 16

`std::stoul(s, nullptr, 16)` on a 64-bit host.  White space, a sign and a prefix `0x` may come
before the digits, and anything after them is ignored.  The function throws where there is no digit
and where the number needs more than 64 bits; a number after a minus sign is negated as unsigned.
-/

namespace Stoul

/-- `std::isspace` in the C locale. -/
def isSpace (c : Char) : Bool := c.toNat = 32 ∨ (9 ≤ c.toNat ∧ c.toNat ≤ 13)

/-- The value of a digit in base 16. -/
def hexDigit (c : Char) : Option ℕ :=
  if 48 ≤ c.toNat ∧ c.toNat ≤ 57 then some (c.toNat - 48)
  else if 97 ≤ c.toNat ∧ c.toNat ≤ 102 then some (c.toNat - 87)
  else if 65 ≤ c.toNat ∧ c.toNat ≤ 70 then some (c.toNat - 55)
  else none

/-- The leading digits. -/
def hexDigits : List Char → List ℕ
  | [] => []
  | c :: s =>
    match hexDigit c with
    | none => []
    | some d => d :: hexDigits s

/-- The digits without a leading `0x`; an `0x` that no digit follows is the digit 0. -/
def dropBase : List Char → List Char
  | '0' :: x :: d :: s =>
    if (x = 'x' ∨ x = 'X') ∧ (hexDigit d).isSome then d :: s else '0' :: x :: d :: s
  | s => s

/-- The sign, and what follows it. -/
def sign : List Char → Bool × List Char
  | '-' :: s => (true, s)
  | '+' :: s => (false, s)
  | s => (false, s)

/-- `stoul` in base 16, `none` where it throws. -/
def stoul16 (s : List Char) : Option (BitVec 64) :=
  let (neg, s) := sign (s.dropWhile isSpace)
  let digits := hexDigits (dropBase s)
  let v := digits.foldl (fun v d => 16 * v + d) 0
  if digits = [] then none
  else if v ≥ 2 ^ 64 then none
  else some (if neg then -BitVec.ofNat 64 v else BitVec.ofNat 64 v)

/-! ### Two digits -/

theorem not_prefix_of_hexDigit {c : Char} {x : ℕ} (h : hexDigit c = some x) :
    isSpace c = false ∧ c ≠ '-' ∧ c ≠ '+' := by
  have hc : 48 ≤ c.toNat := by
    unfold hexDigit at h
    split at h
    · omega
    · split at h
      · omega
      · split at h
        · omega
        · cases h
  refine ⟨decide_eq_false (by omega), ?_, ?_⟩
  · rintro rfl
    exact absurd hc (by decide)
  · rintro rfl
    exact absurd hc (by decide)

theorem sign_of_hexDigit {c : Char} {x : ℕ} (h : hexDigit c = some x) (s : List Char) :
    sign (c :: s) = (false, c :: s) := by
  obtain ⟨-, hm, hp⟩ := not_prefix_of_hexDigit h
  unfold sign
  split
  next heq => exact absurd (List.cons.inj heq).1 hm
  next heq => exact absurd (List.cons.inj heq).1 hp
  next => rfl

theorem stoul16_pair {c d : Char} {x y : ℕ} (hc : hexDigit c = some x) (hd : hexDigit d = some y)
    (hlt : 16 * x + y < 2 ^ 64) : stoul16 [c, d] = some (BitVec.ofNat 64 (16 * x + y)) := by
  have hspace : [c, d].dropWhile isSpace = [c, d] := by
    rw [List.dropWhile_cons_of_neg (by rw [(not_prefix_of_hexDigit hc).1]; exact Bool.noConfusion)]
  have hbase : dropBase [c, d] = [c, d] := by
    unfold dropBase
    split
    next heq => cases heq
    next => rfl
  have hdigits : hexDigits [c, d] = [x, y] := by
    rw [hexDigits, hc, hexDigits, hd, hexDigits]
  rw [stoul16, hspace, sign_of_hexDigit hc]
  dsimp only
  rw [hbase, hdigits]
  simp only [List.foldl_cons, List.foldl_nil, Nat.mul_zero, Nat.zero_add]
  rw [if_neg (show ¬ [x, y] = [] from List.cons_ne_nil x [y]), if_neg (Nat.not_le.2 hlt),
    if_neg Bool.false_ne_true]

end Stoul
