import VirtualSoC.Bus.Memory

/-!
# Register targets

The frame that the `b_transport` functions of the register targets share: a word is copied from
the payload for a write and into it for a read, and addresses without a register are refused.
Every command but a write reads.
-/

namespace VirtualSoC

variable {σ : Type*} {n : ℕ} (access : Bool → Word → Word → Option (Word × σ)) (s : σ)

/-- A transaction on registers.  `access isWrite addr val` is the value read and the next state,
`none` where no register is. -/
def regTransport (trans : Payload n) : Option (Payload n × σ) :=
  if trans.command = .write then
    trans.getWord.map fun val =>
      match access true (trans.address.setWidth 32) val with
      | none => ({ trans with response := .addressError }, s)
      | some (_, s) => ({ trans with response := .ok }, s)
  else
    match access false (trans.address.setWidth 32) 0 with
    | none => some ({ trans with response := .addressError }, s)
    | some (val, s) => ({ trans with response := .ok }.setWord val).map fun trans => (trans, s)

variable {trans : Payload n}

theorem isSome_regTransport (h : 4 ≤ n) : (regTransport access s trans).isSome := by
  unfold regTransport
  split
  · obtain ⟨val, hval⟩ := Payload.exists_getWord trans h
    rw [hval]
    rfl
  · split
    · rfl
    next val s _ =>
      obtain ⟨t, ht⟩ := Payload.exists_setWord { trans with response := .ok } val h
      rw [ht]
      rfl

variable {access s}

theorem regTransport_write (hw : trans.command = .write) {val : Word}
    (hval : trans.getWord = some val) {x : Payload n × σ}
    (h : regTransport access s trans = some x) :
    x.2 = (access true (trans.address.setWidth 32) val).elim s Prod.snd := by
  rw [regTransport, if_pos hw, hval] at h
  cases h
  dsimp only
  cases access true (trans.address.setWidth 32) val <;> rfl

theorem regTransport_read (hr : trans.command ≠ .write) {x : Payload n × σ}
    (h : regTransport access s trans = some x) :
    x.2 = (access false (trans.address.setWidth 32) 0).elim s Prod.snd := by
  rw [regTransport, if_neg hr] at h
  cases hacc : access false (trans.address.setWidth 32) 0 with
  | none =>
    rw [hacc] at h
    cases h
    rfl
  | some a =>
    rw [hacc] at h
    obtain ⟨t, -, rfl⟩ := Option.map_eq_some_iff.1 h
    rfl

/-- The state after a transaction: that of an access, or the old one where no register is. -/
theorem exists_val_of_regTransport {x : Payload n × σ} (h : regTransport access s trans = some x) :
    ∃ val, (trans.command = .write → trans.getWord = some val) ∧
      x.2 = (access (trans.command = .write) (trans.address.setWidth 32) val).elim s Prod.snd := by
  by_cases hw : trans.command = .write
  · obtain ⟨val, hval⟩ : ∃ val, trans.getWord = some val := by
      rw [regTransport, if_pos hw] at h
      obtain ⟨val, hval, -⟩ := Option.map_eq_some_iff.1 h
      exact ⟨val, hval⟩
    refine ⟨val, fun _ => hval, ?_⟩
    rw [decide_eq_true hw]
    exact regTransport_write hw hval h
  · refine ⟨0, fun h => absurd h hw, ?_⟩
    rw [decide_eq_false hw]
    exact regTransport_read hw h

/-- A transaction leaves the state, or takes it where an access of a register does. -/
theorem exists_access_of_regTransport {x : Payload n × σ}
    (h : regTransport access s trans = some x) :
    x.2 = s ∨ ∃ isWrite addr val v, access isWrite addr val = some (v, x.2) := by
  obtain ⟨val, -, hx⟩ := exists_val_of_regTransport h
  rw [hx]
  cases hacc : access (trans.command = .write) (trans.address.setWidth 32) val with
  | none => exact .inl rfl
  | some a => exact .inr ⟨_, _, _, _, hacc⟩

theorem exists_regTransport_read (s : σ) (h : 4 ≤ n) (hr : trans.command ≠ .write) {val : Word}
    {s' : σ}
    (hacc : access false (trans.address.setWidth 32) 0 = some (val, s')) :
    ∃ t, regTransport access s trans = some (t, s') ∧ t.response = .ok ∧
      t.getWord = some val := by
  obtain ⟨t, ht⟩ := Payload.exists_setWord { trans with response := .ok } val h
  refine ⟨t, ?_, ?_, Payload.getWord_of_setWord ht⟩
  · rw [regTransport, if_neg hr, hacc]
    dsimp only
    rw [ht]
    rfl
  · obtain ⟨data, -, rfl⟩ := Option.map_eq_some_iff.1 ht
    rfl

end VirtualSoC
