import VirtualSoC.Cpu.Csr

/-!
# What a CSR write can do

A successful `CSRFile.write` has passed the privilege and the read-only check and has taken one
branch of the `switch`; `on_satp_write` is invoked exactly for `satp` (`CSRFile.write_eq_some`).
Statements about every branch go through `forall_some_ite`.
-/

namespace VirtualSoC

theorem forall_some_ite {α : Type*} {p : α → Prop} {c : Prop} [Decidable c] {a b : Option α}
    (ha : c → ∀ x, a = some x → p x) (hb : ∀ x, b = some x → p x) :
    ∀ x, (if c then a else b) = some x → p x := by
  split
  next h => exact ha h
  · exact hb

/-- A successful CSR write passed both checks and took a branch of the `switch`. -/
theorem CSRFile.write_eq_some {c c' : CSRFile} {addr : BitVec 16} {priv : Priv} {v : Word}
    {b : Bool} (h : c.write addr priv v = some (c', b)) :
    CSRFile.privOk addr priv ∧ CSRFile.isReadOnly addr = false ∧ c.writeReg addr v = some c' ∧
      b = decide (addr = csrSatp) := by
  unfold CSRFile.write at h
  split at h
  · cases h
  next hp =>
    split at h
    · cases h
    next hr =>
      obtain ⟨x, hx, hxc⟩ := Option.map_eq_some_iff.1 h
      cases hxc
      exact ⟨by simpa using hp, by simpa using hr, hx, rfl⟩

theorem CSRFile.writeReg_satp {c : CSRFile} {addr : BitVec 16} {v : Word} :
    ∀ c', c.writeReg addr v = some c' → addr = csrSatp ∨ c'.satp = c.satp := by
  unfold writeReg
  repeat' apply forall_some_ite
  all_goals first | rintro h c' ⟨⟩ | rintro c' ⟨⟩
  all_goals first | exact .inr rfl | exact .inl h

end VirtualSoC
