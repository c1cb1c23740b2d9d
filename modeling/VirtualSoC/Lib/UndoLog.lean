import Mathlib.Logic.Function.Conjugate

/-!
# Undo logs

A log of restore operations, the newest first.  Restoring all of them in this order leads back to
the state before the first entry was made (`undo`).  An entry may be restored out of turn if it
commutes with those made after it (`undo_remove`).
-/

namespace UndoLog

variable {σ ε : Type*} (restore : ε → σ → σ)

/-- Restore all entries, the newest first. -/
def undo : List ε → σ → σ
  | [], s => s
  | e :: log, s => undo log (restore e s)

variable {restore}

theorem undo_append (log log' : List ε) (s : σ) :
    undo restore (log ++ log') s = undo restore log' (undo restore log s) := by
  induction log generalizing s with
  | nil => rfl
  | cons e log ih => exact ih _

theorem undo_comm {e : ε} {log : List ε}
    (h : ∀ e' ∈ log, Function.Commute (restore e') (restore e)) (s : σ) :
    undo restore log (restore e s) = restore e (undo restore log s) := by
  induction log generalizing s with
  | nil => rfl
  | cons e' log ih =>
    obtain ⟨he', hlog⟩ := List.forall_mem_cons.1 h
    rw [undo, undo, he' s, ih hlog]

theorem undo_remove {e : ε} {log : List ε} (log' : List ε)
    (h : ∀ e' ∈ log, Function.Commute (restore e') (restore e)) (s : σ) :
    undo restore (log ++ log') (restore e s) = undo restore (log ++ e :: log') s := by
  rw [undo_append, undo_append, undo_comm h, undo]

end UndoLog
