import Mathlib.Logic.Relation
import VirtualSoC.Platform.SocRun

/-!
# The state of the devices

A step of the platform is a sequence of changes of the devices (`SocStep`).  Each of them keeps
every device at its socket, in a state that its machine reaches (`SocInv.step`), and, unless the
pending word of the PLIC is written, every pending request one of a device whose line is high
(`Heard.step`).
-/

namespace VirtualSoC

open Cfg

/-! ### The state of the devices -/

/-- Where the thread of the DMA engine is, and what is bound to the sockets. -/
abbrev SocState := DmaThread × (ℕ → Target Device)

/-- Every device is at its socket, in a state that its machine reaches, and the PLIC has heard of
all calls. -/
structure SocInv (s : SocState) : Prop where
  device : ∀ i, 2 ≤ i → i ≤ 11 → ∃ u, s.2 i = .device ⟨u, none⟩ ∧ u.socket = i ∧ u.Reached s.1
  memory : ∀ i < 2, ∀ d, s.2 i ≠ .device d

/-- A request that is pending at the PLIC is one of a device whose line is high. -/
def Heard (t : ℕ → Target Device) : Prop :=
  ∀ l ∈ irqWires, ∀ p u, t 3 = .device ⟨.plic p, none⟩ → t l.1 = .device ⟨u, none⟩ →
    p.pending.getLsbD l.2.toNat = true → u.irq = true

/-- What happens to the devices: `C` holds of the transactions. -/
inductive SocStep (C : ∀ {n : ℕ}, Payload n → Prop) : SocState → SocState → Prop
  | idle {th : DmaThread} {t : ℕ → Target Device} : SocStep C (th, t) (th, deliver t)
  | transact {th : DmaThread} {t t' : ℕ → Target Device} {n : ℕ} {trans x : Payload n}
    (hn : 4 ≤ n) (hC : C trans) (h : platformBus.bTransport t trans = some (x, t')) :
    SocStep C (th, t) (th, deliver t')
  /-- The device at a socket changes by itself. -/
  | device {th th' : DmaThread} {t : ℕ → Target Device} {i : ℕ} {u : Peripheral} {d : Device}
    (hu : t i = .device ⟨u, none⟩) (hd : Evolves th th' u d) (hth : i ≠ 9 → th' = th)
    (hp : u.socket = 3 → d = ⟨u, none⟩) :
    SocStep C (th, t) (th', deliver (Function.update t i (.device d)))
  /-- A write into a memory through a DMI window. -/
  | host {th : DmaThread} {t : ℕ → Target Device} {i n off k : ℕ} {src : Vector Byte n}
    {m : Target Device} (h : (t i).hostWrite src off k = some m) :
    SocStep C (th, t) (th, Function.update t i m)

section

variable {th th' : DmaThread} {t : ℕ → Target Device}

theorem Peripheral.reached_congr {u : Peripheral} (h : u.socket = 9 → th' = th)
    (hr : u.Reached th) : u.Reached th' := by
  cases u with
  | dma e => rwa [h rfl]
  | _ => exact hr

/-- The device at `j` becomes `X`, and the PLIC hears of it. -/
structure Changes (th th' : DmaThread) (t : ℕ → Target Device) (j : ℕ) (X : Target Device) :
    Prop where
  device : ∀ u, t j = .device ⟨u, none⟩ → ∃ d, X = .device d ∧ Evolves th th' u d
  memory : (∀ d, t j ≠ .device d) → ∀ d, X ≠ .device d
  thread : j ≠ 9 → th' = th

theorem SocInv.changes (h : SocInv (th, t)) {j : ℕ} {X : Target Device}
    (hX : Changes th th' t j X) : SocInv (th', deliver (Function.update t j X)) where
  device i hlo hhi := by
    obtain ⟨u, hu, hsocket, hr⟩ := h.device i hlo hhi
    dsimp only at hu hr
    by_cases hi : i = j
    · subst hi
      obtain ⟨d, rfl, hd⟩ := hX.device u hu
      have hhear : Evolves th' th' _ _ := evolves_hear (Function.update t i (.device d)) d.unit
      refine ⟨_, ?_, hhear.socket.trans (hd.socket.trans hsocket), hhear.reached (hd.reached hr)⟩
      dsimp only [deliver]
      rw [Function.update_self]
      rfl
    · have hhear : Evolves th' th' _ _ := evolves_hear (Function.update t j X) u
      refine ⟨_, ?_, hhear.socket.trans hsocket, hhear.reached (Peripheral.reached_congr ?_ hr)⟩
      · dsimp only [deliver]
        rw [Function.update_of_ne hi, hu]
        rfl
      · intro h9
        exact hX.thread fun hj => hi (hsocket.symm.trans (h9.trans hj.symm))
  memory i hi d := by
    have ht := h.memory i hi
    have hX' : ∀ d, Function.update t j X i ≠ .device d := by
      intro d
      by_cases hij : i = j
      · subst hij
        rw [Function.update_self]
        exact hX.memory ht d
      · rw [Function.update_of_ne hij]
        exact ht d
    dsimp only [deliver]
    cases hm : Function.update t j X i with
    | memory m | bootRom m => exact fun hc => by cases hc
    | device d => exact absurd hm (hX' d)

theorem Changes.refl (th : DmaThread) (t : ℕ → Target Device) : Changes th th t 2 (t 2) where
  device u hu := ⟨⟨u, none⟩, hu, .refl th u⟩
  memory h := h
  thread _ := rfl

theorem plicRange : ∀ r ∈ platformBus.ranges, r.targetIdx = 3 → r = ⟨plicBase, plicSize, 3⟩ := by
  decide

theorem exists_changes_of_bTransport (th : DmaThread) {n : ℕ} {trans x : Payload n}
    {t' : ℕ → Target Device} (hn : 4 ≤ n) (hb : platformBus.bTransport t trans = some (x, t')) :
    ∃ j X, t' = Function.update t j X ∧ Changes th th t j X ∧
      (j = 3 → ∃ y, (t 3).bTransport { trans with
        address := ((trans.address.setWidth 32 : Word) - plicBase).setWidth 64 } =
          some (y, X)) := by
  unfold TlmBus.bTransport at hb
  split at hb
  · cases hb
    exact ⟨2, t 2, (Function.update_eq_self ..).symm, .refl th t, fun h => absurd h (by decide)⟩
  next r hr =>
    obtain ⟨⟨y, Y⟩, hy, hx⟩ := Option.bind_eq_some_iff.1 hb
    cases hx
    refine ⟨r.targetIdx, Y, rfl, ⟨fun u hu => ?_, fun hd d => ?_, fun _ => rfl⟩, fun h3 => ?_⟩
    · rw [hu] at hy
      obtain ⟨⟨z, d'⟩, hd, hz⟩ := Option.map_eq_some_iff.1 hy
      cases hz
      exact ⟨d', rfl, evolves_transport hn th hd⟩
    · cases ht : t r.targetIdx with
      | memory m | bootRom m =>
        rw [ht] at hy
        obtain ⟨z, -, hz⟩ := Option.map_eq_some_iff.1 hy
        cases hz
        exact fun hc => by cases hc
      | device d => exact absurd ht (hd d)
    · rw [h3, plicRange r (List.mem_of_find?_eq_some hr) h3] at hy
      exact ⟨y, hy⟩

theorem changes_device {i : ℕ} {u : Peripheral} {d : Device} (hu : t i = .device ⟨u, none⟩)
    (hd : Evolves th th' u d) (hth : i ≠ 9 → th' = th) : Changes th th' t i (.device d) where
  device u' hu' := by
    cases hu.symm.trans hu'
    exact ⟨d, rfl, hd⟩
  memory h := absurd hu (h _)
  thread := hth

theorem Target.ne_device_of_hostWrite {n off k : ℕ} {src : Vector Byte n} {m m' : Target Device}
    (h : m.hostWrite src off k = some m') : (∀ d, m ≠ .device d) ∧ ∀ d, m' ≠ .device d := by
  cases m with
  | memory r | bootRom r =>
    obtain ⟨mem, -, rfl⟩ := Option.map_eq_some_iff.1 h
    exact ⟨fun d hc => (by cases hc), fun d hc => by cases hc⟩
  | device d => cases h

theorem SocInv.host (h : SocInv (th, t)) {i n off k : ℕ} {src : Vector Byte n} {m : Target Device}
    (hw : (t i).hostWrite src off k = some m) : SocInv (th, Function.update t i m) := by
  obtain ⟨hold, hnew⟩ := Target.ne_device_of_hostWrite hw
  constructor
  · intro j hlo hhi
    obtain ⟨u, hu, hrest⟩ := h.device j hlo hhi
    have hj : j ≠ i := fun hj => hold _ (hj ▸ hu)
    exact ⟨u, (Function.update_of_ne hj ..).trans hu, hrest⟩
  · intro j hj d
    dsimp only
    by_cases hji : j = i
    · subst hji
      rw [Function.update_self]
      exact hnew d
    · rw [Function.update_of_ne hji]
      exact h.memory j hj d

/-- **Every change keeps the devices at their sockets, in states that their machines reach.** -/
theorem SocInv.step {C : ∀ {n : ℕ}, Payload n → Prop} {s s' : SocState} (h : SocInv s)
    (hs : SocStep C s s') : SocInv s' := by
  cases hs with
  | idle =>
    have hstep := h.changes (.refl ..)
    rwa [Function.update_eq_self] at hstep
  | transact hn hC hb =>
    obtain ⟨j, X, rfl, hX, -⟩ := exists_changes_of_bTransport _ hn hb
    exact h.changes hX
  | device hu hd hth hp => exact h.changes (changes_device hu hd hth)
  | host hw => exact h.host hw

/-! ### Requests -/

/-- The transaction overwrites the pending word of the PLIC. -/
def Payload.WritesPending {n : ℕ} (trans : Payload n) : Prop :=
  trans.command = .write ∧ trans.dataLength = 4 ∧
    trans.address.setWidth 32 = plicBase + (0x1000 : Word)

/-- The requests of `q` are requests of `p`. -/
def Plic.RequestsLe (q p : Plic) : Prop :=
  ∀ i : Source, i ≠ 0 → q.pending.getLsbD i = true → p.pending.getLsbD i = true

theorem irqWires_ne : ∀ l ∈ irqWires, 2 ≤ l.1 ∧ l.1 ≤ 11 ∧ l.1 ≠ 3 := by decide

theorem exists_deliver_plic {p : Plic} {c : Option Bool} (h : t 3 = .device ⟨.plic p, c⟩) :
    ∃ q, deliver t 3 = .device ⟨.plic q, none⟩ ∧ ∀ l ∈ irqWires,
      q.pending.getLsbD l.2.toNat = (t l.1).call.getD (p.pending.getLsbD l.2.toNat) := by
  obtain ⟨q, hq, hbits⟩ := exists_hear_plic t p
  refine ⟨q, ?_, hbits⟩
  dsimp only [deliver]
  rw [h]
  dsimp only [Target.mapDevice]
  rw [hq]

theorem deliver_device {i : ℕ} {u : Peripheral} {c : Option Bool} (h : t i = .device ⟨u, c⟩)
    (hu : u.socket ≠ 3) : deliver t i = .device ⟨u, none⟩ := by
  dsimp only [deliver]
  rw [h]
  dsimp only [Target.mapDevice]
  rw [hear_of_ne t hu]

theorem SocInv.exists_plic (h : SocInv (th, t)) : ∃ p, t 3 = .device ⟨.plic p, none⟩ := by
  obtain ⟨u, hu, hsocket, -⟩ := h.device 3 (by decide) (by decide)
  cases u with
  | plic p => exact ⟨p, hu⟩
  | _ => cases hsocket

/-- The requests after a change: the device that changes tells its level, and the PLIC itself raises
none. -/
theorem Heard.changes (hheard : Heard t) (h : SocInv (th, t)) {j : ℕ} {X : Target Device}
    (hX : Changes th th' t j X)
    (hp : ∀ p d, t 3 = .device ⟨.plic p, none⟩ → j = 3 → X = .device d →
      ∃ q, d = ⟨.plic q, none⟩ ∧ q.RequestsLe p) :
    Heard (deliver (Function.update t j X)) := by
  intro l hl q u hq hu hpending
  obtain ⟨hlo, hhi, hl3⟩ := irqWires_ne l hl
  obtain ⟨v, hv, hvsocket, -⟩ := h.device l.1 hlo hhi
  obtain ⟨p, hp3⟩ := h.exists_plic
  obtain ⟨i, hi, hil⟩ := irqWires_sources.1 l hl
  have hvne : v.socket ≠ 3 := hvsocket ▸ hl3
  dsimp only at hv
  by_cases hj : j = 3
  · -- the PLIC itself: the other devices are as before
    subst hj
    obtain ⟨d, rfl, -⟩ := hX.device _ hp3
    obtain ⟨p', rfl, hle⟩ := hp p d hp3 rfl rfl
    have h3 : Function.update t 3 (.device ⟨.plic p', none⟩) 3 = .device ⟨.plic p', none⟩ :=
      Function.update_self ..
    have hvl : Function.update t 3 (.device ⟨.plic p', none⟩) l.1 = .device ⟨v, none⟩ :=
      (Function.update_of_ne hl3 ..).trans hv
    obtain ⟨q', hq', hbits⟩ := exists_deliver_plic h3
    cases hq'.symm.trans hq
    cases (deliver_device hvl hvne).symm.trans hu
    rw [hbits l hl, hvl] at hpending
    exact hheard l hl p _ hp3 hv (hil ▸ hle i hi (hil ▸ hpending))
  · have h3 : Function.update t j X 3 = .device ⟨.plic p, none⟩ :=
      (Function.update_of_ne (Ne.symm hj) ..).trans hp3
    obtain ⟨q', hq', hbits⟩ := exists_deliver_plic h3
    cases hq'.symm.trans hq
    rw [hbits l hl] at hpending
    by_cases hlj : l.1 = j
    · -- the device that has changed: the last call tells its level
      obtain ⟨d, rfl, hd⟩ := hX.device v (hlj ▸ hv)
      have hdl : Function.update t j (.device d) l.1 = .device d := by
        rw [hlj, Function.update_self]
      cases (deliver_device hdl (hd.socket ▸ hvne)).symm.trans hu
      rw [hdl] at hpending
      change d.call.getD _ = true at hpending
      rw [← hd.heard]
      cases hc : d.call with
      | none =>
        rw [hc] at hpending
        exact hheard l hl p _ hp3 hv hpending
      | some level =>
        rw [hc] at hpending
        exact hpending
    · have hvl : Function.update t j X l.1 = .device ⟨v, none⟩ :=
        (Function.update_of_ne hlj ..).trans hv
      cases (deliver_device hvl hvne).symm.trans hu
      rw [hvl] at hpending
      exact hheard l hl p _ hp3 hv hpending

/-- A transaction is no call of `set_pending`, and overwrites the requests only by a write of the
pending word. -/
theorem PlicInput.op_transport {n : ℕ} (trans : Payload n) (fits : trans.dataLength.toNat ≤ n) :
    (∀ id v, (transport trans fits).op ≠ .line id v) ∧
      ∀ val, (transport trans fits).op = .pending val → trans.command = .write ∧
        trans.dataLength = 4 ∧ trans.address.setWidth 32 = (0x1000 : Word) := by
  have hwrite (a val : Word) : (∀ id v, PlicOp.ofWrite a val ≠ .line id v) ∧
      ∀ v, PlicOp.ofWrite a val = .pending v → a = 0x1000 := by
    unfold PlicOp.ofWrite
    constructor
    · intro id v
      split_ifs <;> exact PlicOp.noConfusion
    · intro v
      split_ifs with h₁ h₂
      · exact fun h => by cases h
      · exact fun _ => h₂
      all_goals exact fun h => by cases h
  have hread (a : Word) : PlicOp.ofRead a = .claim ∨ PlicOp.ofRead a = .idle := by
    unfold PlicOp.ofRead
    split
    · exact .inl rfl
    · exact .inr rfl
  unfold PlicInput.op
  dsimp only
  split
  · exact ⟨fun _ _ => PlicOp.noConfusion, fun _ => PlicOp.noConfusion⟩
  next hlen =>
    split
    next hw =>
      cases trans.getWord with
      | none => exact ⟨fun _ _ => PlicOp.noConfusion, fun _ => PlicOp.noConfusion⟩
      | some val =>
        obtain ⟨hline, hpending⟩ := hwrite (trans.address.setWidth 32) val
        exact ⟨hline, fun v hv => ⟨hw, not_not.1 hlen, hpending v hv⟩⟩
    · rcases hread (trans.address.setWidth 32) with h | h
      all_goals
        rw [h]
        exact ⟨fun _ _ => PlicOp.noConfusion, fun _ => PlicOp.noConfusion⟩

/-- A transaction that does not write the pending word raises no request. -/
theorem requestsLe_of_bTransport {n : ℕ} {trans x : Payload n} {p q : Plic} (hn : 4 ≤ n)
    (h : p.bTransport trans = some (x, q))
    (hw : ¬ (trans.command = .write ∧ trans.dataLength = 4 ∧
      trans.address.setWidth 32 = (0x1000 : Word))) : q.RequestsLe p := by
  intro i hi hq
  by_cases hlen : trans.dataLength = 4
  · have hfits : trans.dataLength.toNat ≤ n := hlen ▸ hn
    have hnext : plicMachine.next p (.transport trans hfits) = q :=
      congrArg Prod.snd (Option.get_of_eq_some _ h)
    obtain ⟨hline, hpending⟩ := PlicInput.op_transport trans hfits
    rcases (Plic.pending_next hi).1 (hnext ▸ hq) with hraise | hkept
    · rcases hraise with ⟨id, hop, -⟩ | ⟨val, hop, -⟩
      · exact absurd hop (hline id true)
      · exact absurd (hpending val hop) hw
    · exact hkept.1
  · rw [Plic.bTransport, if_pos hlen] at h
    cases h
    exact hq

theorem Heard.transact (hheard : Heard t) (h : SocInv (th, t)) {n : ℕ} {trans x : Payload n}
    {t' : ℕ → Target Device} (hn : 4 ≤ n) (hw : ¬ trans.WritesPending)
    (hb : platformBus.bTransport t trans = some (x, t')) : Heard (deliver t') := by
  obtain ⟨j, X, rfl, hX, hplic⟩ := exists_changes_of_bTransport th hn hb
  refine hheard.changes h hX fun p d hp3 h3 hd => ?_
  obtain ⟨y, hy⟩ := hplic h3
  rw [hp3] at hy
  obtain ⟨⟨z, d'⟩, hz, hd'⟩ := Option.map_eq_some_iff.1 hy
  obtain ⟨⟨w, u⟩, hu, hw'⟩ := Option.map_eq_some_iff.1 hz
  obtain ⟨⟨z', q⟩, hq, hz'⟩ := Option.map_eq_some_iff.1 hu
  cases hz'
  cases hw'
  cases hd'
  cases hd
  refine ⟨q, rfl, requestsLe_of_bTransport hn hq ?_⟩
  rintro ⟨hc, hlen, haddr⟩
  refine hw ⟨hc, hlen, ?_⟩
  rw [setWidth_setWidth_word] at haddr
  exact eq_add_of_sub_eq' haddr

theorem Heard.host (hheard : Heard t) {i n off k : ℕ} {src : Vector Byte n}
    {m : Target Device} (hw : (t i).hostWrite src off k = some m) :
    Heard (Function.update t i m) := by
  obtain ⟨-, hnew⟩ := Target.ne_device_of_hostWrite hw
  -- what is a device has not been written
  have hold {j : ℕ} {d : Device} (hd : Function.update t i m j = .device d) : t j = .device d := by
    have hj : j ≠ i := by
      rintro rfl
      rw [Function.update_self] at hd
      exact hnew d hd
    rwa [Function.update_of_ne hj] at hd
  exact fun l hl q u hq hu => hheard l hl q u (hold hq) (hold hu)

/-- **Every pending request stays one of a device whose line is high.** -/
theorem Heard.step {s s' : SocState} (hheard : Heard s.2) (h : SocInv s)
    (hs : SocStep (fun trans => ¬ trans.WritesPending) s s') : Heard s'.2 := by
  cases hs with
  | idle =>
    have hstep := hheard.changes h (.refl ..) fun _ _ _ h3 => absurd h3 (by decide)
    rwa [Function.update_eq_self] at hstep
  | transact hn hC hb => exact hheard.transact h hn hC hb
  | device hu hd hth hp =>
    refine hheard.changes h (changes_device hu hd hth) fun p d' hp3 h3 hd' => ?_
    subst h3
    cases hd'
    cases hu.symm.trans hp3
    exact ⟨p, hp rfl, fun _ _ h => h⟩
  | host hw => exact hheard.host hw

end

end VirtualSoC
