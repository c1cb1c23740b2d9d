import VirtualSoC.Platform.RamPort

/-!
# Accesses to the RAM leave the other targets alone

`platform_ramAt_frame` : the RAM of the platform, in a view that fixes the other targets of the bus.
-/

namespace VirtualSoC

open Cfg

section

variable {δ : Type*} [TlmDevice δ]

/-- A transaction changes the target of its range only. -/
theorem TlmBus.forward_of_ne {n : ℕ} {targets : ℕ → Target δ} {range : MappedRange}
    {trans : Payload n} {x : Payload n × (ℕ → Target δ)} (h : forward targets range trans = some x)
    {j : ℕ} (hj : j ≠ range.targetIdx) : x.2 j = targets j := by
  obtain ⟨y, -, hy⟩ := Option.bind_eq_some_iff.1 h
  cases hy
  exact Function.update_of_ne hj ..

end

variable {δ : Type} [TlmDevice δ]

namespace BusPort.PlatformRam

variable {w w' : BusPort δ} {m : Ram} (h : w.PlatformRam m) {a : Word} {n : ℕ}
  (hn : 0 < n ∧ n ≤ 4) (hlo : 0x80000000 ≤ a.toNat) (hlt : a.toNat < 0x88000000)

include h hn hlo hlt

omit h hn in
theorem targets_busRead {v : Word} (hr : w.busRead platformBus a n = some (v, w')) {j : ℕ}
    (hj : j ≠ 1) : w'.targets j = w.targets j := by
  unfold BusPort.busRead at hr
  split at hr
  · obtain ⟨i, -, hr⟩ := Option.bind_eq_some_iff.1 hr
    obtain ⟨u, -, hu⟩ := Option.bind_eq_some_iff.1 hr
    cases hu
    rfl
  · obtain ⟨x, hx, hr⟩ := Option.bind_eq_some_iff.1 hr
    obtain ⟨u, -, hu⟩ := Option.bind_eq_some_iff.1 hr
    rw [bTransport_eq hlo hlt (by rfl)] at hx
    have hframe := TlmBus.forward_of_ne hx hj
    cases hu
    split
    · exact hframe
    · rw [tryDmi_targets]
      exact hframe

theorem targets_busWrite {v : Word} (hw : w.busWrite platformBus a v n = some w') {j : ℕ}
    (hj : j ≠ 1) : w'.targets j = w.targets j := by
  unfold BusPort.busWrite at hw
  split at hw
  next hit =>
    obtain ⟨a₀, ⟨x, hx, hhold⟩, hd⟩ := h.granted_of_hit hn hlo hlt hit
    -- the window is the one of the RAM
    have hidx : x.1 = 1 := by
      rw [TlmBus.getDirectMemPtr, hd] at hx
      obtain ⟨dmi, -, rfl⟩ := Option.map_eq_some_iff.1 hx
      rfl
    obtain ⟨i, hi, hw⟩ := Option.bind_eq_some_iff.1 hw
    obtain ⟨t, -, ht⟩ := Option.bind_eq_some_iff.1 hw
    cases hhold.ptr.symm.trans hi
    cases ht
    exact Function.update_of_ne (hidx ▸ hj) ..
  · obtain ⟨trans, htr, hw⟩ := Option.bind_eq_some_iff.1 hw
    obtain ⟨x, hx, hw⟩ := Option.bind_eq_some_iff.1 hw
    have haddr : trans.address = a.setWidth 64 := by
      obtain ⟨buf, -, hbuf⟩ := Option.bind_eq_some_iff.1 htr
      cases hbuf
      rfl
    rw [bTransport_eq hlo hlt haddr] at hx
    cases hw
    exact TlmBus.forward_of_ne hx hj

end BusPort.PlatformRam

/-- The worlds of the platform bus with `m` in the RAM and the other targets as in `others`. -/
def PlatformFrame (δ : Type) (others : ℕ → Target δ) (b : Option (BusPort δ)) (m : Ram) : Prop :=
  ∃ w, b = some w ∧ w.PlatformRam m ∧ ∀ j ≠ 1, w.targets j = others j

theorem platform_ramAt_frame (others : ℕ → Target δ) :
    RamAt (socBus platformBus) 0x80000000 0x88000000 (PlatformFrame δ others) where
  read := by
    rintro b m ⟨w, rfl, h, hframe⟩ a n hn hlo hhi
    obtain ⟨w', hr, hw⟩ := h.busRead hn hlo hhi
    have hkeep := fun j hj => BusPort.PlatformRam.targets_busRead hlo (by omega) hr (j := j) hj
    simp only [socBus, Option.bind_some, hr]
    exact ⟨trivial, w', rfl, hw, fun j hj => (hkeep j hj).trans (hframe j hj)⟩
  readPast := by
    rintro b m ⟨w, rfl, h, hframe⟩ a n hn hlo hlt hhi
    obtain ⟨w', hr, hw⟩ := h.busRead_past hn hlo hlt hhi
    have hkeep := fun j hj => BusPort.PlatformRam.targets_busRead hlo hlt hr (j := j) hj
    simp only [socBus, Option.bind_some, hr]
    exact ⟨trivial, w', rfl, hw, fun j hj => (hkeep j hj).trans (hframe j hj)⟩
  write := by
    rintro b m ⟨w, rfl, h, hframe⟩ a n hn hlo hhi v
    obtain ⟨w', hr, hw⟩ := h.busWrite hn hlo hhi v
    exact ⟨w', hr, hw, fun j hj =>
      (h.targets_busWrite hn hlo (by omega) hr hj).trans (hframe j hj)⟩
  writePast := by
    rintro b m ⟨w, rfl, h, hframe⟩ a n hn hlo hlt hhi v
    exact ⟨w, h.busWrite_past hn hlo hlt hhi v, h, hframe⟩

end VirtualSoC
