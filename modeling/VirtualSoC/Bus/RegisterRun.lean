import VirtualSoC.Bus.Registers
import VirtualSoC.Lib.Machine

/-!
# Runs of register targets

The machine of a register target that only register accesses act on.  Where a read changes nothing,
its state is a fold over the words written (`regMachine_run`), so what it stores is a matter of the
last word written to each address (`lastTo`).
-/

namespace VirtualSoC

/-- A register access; a word fits into its buffer. -/
structure RegAccess where
  {n : ℕ}
  payload : Payload n
  fits : 4 ≤ n

namespace RegAccess

variable (a : RegAccess)

/-- The local address. -/
def addr : Word := a.payload.address.setWidth 32

/-- Every command but a write reads. -/
def IsRead : Prop := a.payload.command ≠ .write

instance : Decidable a.IsRead := inferInstanceAs (Decidable (_ ≠ _))

/-- The address and the word of a write. -/
def write? : Option (Word × Word) :=
  if a.payload.command = .write then a.payload.getWord.map fun val => (a.addr, val) else none

end RegAccess

/-- The words written, with their addresses, in order. -/
def regWrites (is : List RegAccess) : List (Word × Word) := is.filterMap (·.write?)

/-- The last word written to the address, and `init` if there is none. -/
def lastTo (addr init : Word) (ws : List (Word × Word)) : Word :=
  ((ws.reverse.find? (·.1 = addr)).map Prod.snd).getD init

theorem lastTo_snoc (addr init : Word) (ws : List (Word × Word)) (w : Word × Word) :
    lastTo addr init (ws ++ [w]) = if w.1 = addr then w.2 else lastTo addr init ws := by
  rw [lastTo, List.reverse_append, List.reverse_singleton, List.singleton_append]
  by_cases h : w.1 = addr
  · rw [List.find?_cons_of_pos (by simpa using h), if_pos h]
    rfl
  · rw [List.find?_cons_of_neg (by simpa using h), if_neg h]
    rfl

section

variable {σ : Type*} (access : σ → Bool → Word → Word → Option (Word × σ))

/-- The registers as a machine; the outputs are the answers. -/
def regMachine : Machine σ RegAccess (Σ n, Payload n) where
  step s a :=
    let answer := (regTransport (access s) s a.payload).get (isSome_regTransport _ _ a.fits)
    (answer.2, ⟨_, answer.1⟩)

/-- The state after a write. -/
def writeReg (s : σ) (w : Word × Word) : σ := (access s true w.1 w.2).elim s Prod.snd

variable {access} {s : σ} {a : RegAccess}

theorem regMachine_next_of_write {w : Word × Word} (h : a.write? = some w) :
    (regMachine access).next s a = writeReg access s w := by
  unfold RegAccess.write? at h
  split at h
  next hw =>
    obtain ⟨val, hval, rfl⟩ := Option.map_eq_some_iff.1 h
    exact regTransport_write hw hval (Option.some_get _).symm
  next => cases h

theorem regMachine_next_of_read (h : a.IsRead) :
    (regMachine access).next s a = (access s false a.addr 0).elim s Prod.snd :=
  regTransport_read h (Option.some_get _).symm

theorem RegAccess.write?_eq_none_iff : a.write? = none ↔ a.IsRead := by
  unfold write? IsRead
  by_cases hw : a.payload.command = .write
  · obtain ⟨val, hval⟩ := Payload.exists_getWord a.payload a.fits
    rw [if_pos hw, hval]
    exact iff_of_false nofun (not_not.2 hw)
  · rw [if_neg hw]
    exact iff_of_true rfl hw

theorem regMachine_out_of_read (h : a.IsRead) {val : Word} {s' : σ}
    (hacc : access s false a.addr 0 = some (val, s')) :
    ((regMachine access).out s a).2.response = .ok ∧
      ((regMachine access).out s a).2.getWord = some val := by
  obtain ⟨t, ht, hok, hval⟩ := exists_regTransport_read s a.fits h hacc
  have hget : (regTransport (access s) s a.payload).get (isSome_regTransport _ _ a.fits) =
      (t, s') := Option.get_of_eq_some _ ht
  change ((regTransport (access s) s a.payload).get _).1.response = _ ∧
    ((regTransport (access s) s a.payload).get _).1.getWord = _
  rw [hget]
  exact ⟨hok, hval⟩

/-- What the access leaves, from what the transaction does. -/
theorem regMachine_of_regTransport {x : Payload a.n × σ}
    (h : regTransport (access s) s a.payload = some x) :
    ((regMachine access).out s a).2.response = x.1.response ∧
      (regMachine access).next s a = x.2 := by
  have hget : (regTransport (access s) s a.payload).get (isSome_regTransport _ _ a.fits) = x :=
    Option.get_of_eq_some _ h
  exact ⟨congrArg (fun y => y.1.response) hget, congrArg Prod.snd hget⟩

/-- An access where no register is, of either kind, is refused and changes nothing. -/
theorem regMachine_of_none (hacc : ∀ w val, access s w a.addr val = none) :
    ((regMachine access).out s a).2.response = .addressError ∧
      (regMachine access).next s a = s := by
  refine regMachine_of_regTransport (x := ({ a.payload with response := .addressError }, s)) ?_
  unfold regTransport
  split
  · obtain ⟨val, hval⟩ := Payload.exists_getWord a.payload a.fits
    rw [hval, Option.map_some]
    exact hacc true val ▸ rfl
  · exact hacc false 0 ▸ rfl

theorem regMachine_out_ok (hacc : ∀ w val, (access s w a.addr val).isSome) :
    ((regMachine access).out s a).2.response = .ok := by
  by_cases hr : a.IsRead
  · obtain ⟨x, hx⟩ := Option.isSome_iff_exists.1 (hacc false 0)
    exact (regMachine_out_of_read hr hx).1
  · obtain ⟨val, hval⟩ := Payload.exists_getWord a.payload a.fits
    obtain ⟨x, hx⟩ := Option.isSome_iff_exists.1 (hacc true val)
    refine (regMachine_of_regTransport (x := ({ a.payload with response := .ok }, x.2)) ?_).1
    rw [regTransport, if_pos (not_not.1 hr), hval, Option.map_some]
    exact hx ▸ rfl

/-- **The state after a run** is that after the words written, where reads change nothing. -/
theorem regMachine_run (hread : ∀ s addr, (access s false addr 0).elim s Prod.snd = s) (s : σ)
    (is : List RegAccess) :
    (regMachine access).run s is = (regWrites is).foldl (writeReg access) s := by
  induction is generalizing s with
  | nil => rfl
  | cons a is ih =>
    rw [Machine.run, ih, regWrites, regWrites]
    cases hw : a.write? with
    | none =>
      rw [regMachine_next_of_read (RegAccess.write?_eq_none_iff.1 hw), hread,
        List.filterMap_cons_none hw]
    | some w =>
      rw [regMachine_next_of_write hw, List.filterMap_cons_some hw, List.foldl_cons]

end

end VirtualSoC
