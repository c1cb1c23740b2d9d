import VirtualSoC.Cpu.BusRel
import VirtualSoC.Cpu.RomSpec
import VirtualSoC.Platform.SocInv

/-!
# Runs of the platform

An iteration of the run loop, a part of a thread, a tick and a call of the host are sequences of
changes of the devices (`Vp.steps_act`).  So `SocInv` holds in every reachable state
(`Vp.inv_run`), and the CPU's own accesses to the bus need no separate treatment: what every
operation of the bus keeps, the iteration keeps.
-/

namespace VirtualSoC

open Cfg

open Relation (ReflTransGen)

variable {C : ∀ {n : ℕ}, Payload n → Prop} {th th' : DmaThread} {w w' : BusPort Device}

/-- Any number of changes. -/
abbrev SocSteps (C : ∀ {n : ℕ}, Payload n → Prop) : SocState → SocState → Prop :=
  ReflTransGen (SocStep C)

theorem SocInv.steps {s s' : SocState} (h : SocInv s) (hs : SocSteps C s s') : SocInv s' := by
  induction hs with
  | refl => exact h
  | tail _ hstep ih => exact ih.step hstep

theorem Heard.steps {s s' : SocState} (hheard : Heard s.2) (h : SocInv s)
    (hs : SocSteps (fun trans => ¬ trans.WritesPending) s s') : Heard s'.2 := by
  induction hs with
  | refl => exact hheard
  | tail hpre hstep ih => exact ih.step (h.steps hpre) hstep

/-! ### The CPU -/

theorem steps_busRead {a v : Word} {n : ℕ} (hC : C (readTrans a n))
    (h : w.busRead platformBus a n = some (v, w')) :
    SocSteps C (th, w.targets) (th, w'.deliver.targets) := by
  unfold BusPort.busRead at h
  split at h
  · obtain ⟨i, -, h⟩ := Option.bind_eq_some_iff.1 h
    obtain ⟨x, -, h⟩ := Option.bind_eq_some_iff.1 h
    cases h
    exact .single .idle
  · obtain ⟨x, hx, h⟩ := Option.bind_eq_some_iff.1 h
    obtain ⟨y, -, h⟩ := Option.bind_eq_some_iff.1 h
    cases h
    have htargets : (if w.dmiValid then { w with targets := x.2 } else
        BusPort.tryDmi { w with targets := x.2 } platformBus a).targets = x.2 := by
      split
      · rfl
      · exact BusPort.tryDmi_targets ..
    unfold BusPort.deliver
    rw [htargets]
    exact .single (.transact le_rfl hC hx)

theorem steps_busWrite {a v : Word} {n : ℕ}
    (hC : ∀ trans, writeTrans a v n = some trans → C trans)
    (h : w.busWrite platformBus a v n = some w') :
    SocSteps C (th, w.targets) (th, w'.deliver.targets) := by
  unfold BusPort.busWrite at h
  split at h
  · obtain ⟨i, -, h⟩ := Option.bind_eq_some_iff.1 h
    obtain ⟨t, ht, h⟩ := Option.bind_eq_some_iff.1 h
    cases h
    exact .tail (.single (.host ht)) .idle
  · obtain ⟨trans, htr, h⟩ := Option.bind_eq_some_iff.1 h
    obtain ⟨x, hx, h⟩ := Option.bind_eq_some_iff.1 h
    cases h
    exact .single (.transact le_rfl (hC trans htr) hx)

/-- What `C` asks of an operation of the CPU's bus. -/
def BusOp.Allowed (C : ∀ {n : ℕ}, Payload n → Prop) : BusOp → Prop
  | read a n => C (readTrans a n)
  | write a v n => ∀ trans, writeTrans a v n = some trans → C trans
  | dropDmi => True

theorem steps_busOp {op : BusOp} (hC : op.Allowed C) {b : Option (BusPort Device)}
    {w₀ : BusPort Device} (h : ∀ w ∈ b, SocSteps C (th, w₀.targets) (th, w.targets)) :
    ∀ w ∈ op.apply vpBus b, SocSteps C (th, w₀.targets) (th, w.targets) := by
  intro w' hw'
  cases op with
  | read a n =>
    obtain ⟨w, hw, rfl⟩ := Option.map_eq_some_iff.1 hw'
    obtain ⟨w₁, rfl, v, hr⟩ := (socBus_read_eq_some platformBus).1 hw
    exact (h w₁ rfl).trans (steps_busRead hC hr)
  | write a v n =>
    obtain ⟨w, hw, rfl⟩ := Option.map_eq_some_iff.1 hw'
    obtain ⟨w₁, rfl, hr⟩ := Option.bind_eq_some_iff.1 hw
    exact (h w₁ rfl).trans (steps_busWrite hC hr)
  | dropDmi =>
    obtain ⟨w, rfl, rfl⟩ := Option.map_eq_some_iff.1 hw'
    exact h w rfl

theorem steps_iterate {iss : ISS (Option (BusPort Device))} {pick : Tlb → ℕ}
    (hC : ∀ x ∈ iss.busOps vpBus pick, x.1.Allowed C) (hw : iss.env.bus = some w)
    (hw' : (iss.iterate vpBus pick).1.env.bus = some w') :
    SocSteps C (th, w.targets) (th, w'.targets) := by
  have hP : ∀ w₁ ∈ iss.env.bus, SocSteps C (th, w.targets) (th, w₁.targets) := by
    intro w₁ hw₁
    cases hw.symm.trans hw₁
    exact .refl
  exact ISS.iterate_of_busOps
    (P := fun b => ∀ w₁ ∈ b, SocSteps C (th, w.targets) (th, w₁.targets)) hP
    (fun x hx h => steps_busOp (hC x hx) h) w' hw'

/-! ### The threads and the host -/

theorem steps_onDevice (h : SocInv (th, w.targets)) {i : ℕ} {f : Peripheral → Device}
    (hlo : 2 ≤ i) (hhi : i ≤ 11)
    (hf : ∀ u, w.targets i = .device ⟨u, none⟩ → u.socket = i → Evolves th th' u (f u))
    (hth : i ≠ 9 → th' = th) (hi : i ≠ 3) :
    SocSteps C (th, w.targets) (th', (w.onDevice i f).targets) := by
  obtain ⟨u, hu, hsocket, -⟩ := h.device i hlo hhi
  have hmap : (w.targets i).mapDevice (fun d => f d.unit) = .device (f u) := by
    dsimp only at hu
    rw [hu]
    rfl
  unfold BusPort.onDevice BusPort.deliver
  dsimp only
  rw [hmap]
  exact .single (.device hu (hf u hu hsocket) hth fun h3 => absurd (hsocket.symm.trans h3) hi)

theorem steps_transport {n : ℕ} {trans x : Payload n} (hn : 4 ≤ n) (hC : C trans)
    (h : w.transport trans = some (x, w')) : SocSteps C (th, w.targets) (th, w'.targets) := by
  obtain ⟨y, hy, hx⟩ := Option.bind_eq_some_iff.1 h
  cases hx
  exact .single (.transact hn hC hy)

theorem steps_dmaNext (h : SocInv (th, w.targets)) (rresp wresp : TlmResponse) :
    SocSteps C (th, w.targets)
      ((w.dmaNext th rresp wresp).1, (w.dmaNext th rresp wresp).2.targets) := by
  refine steps_onDevice h (by decide) (by decide) (fun u hu hsocket => ?_)
    (fun h9 => absurd rfl h9) (by decide)
  cases u with
  | dma e =>
    have he : w.dmaEngine = e := by
      unfold BusPort.dmaEngine
      rw [hu]
    unfold BusPort.dmaNext
    rw [he]
    exact evolves_dmaResume th rresp wresp e
  | _ => cases hsocket

theorem steps_dmaThread (h : SocInv (th, w.targets)) {buf : DmaBuf}
    (hC : ∀ src dst remaining buf', th = .copying remaining src dst → remaining > 0 →
      C (DmaAccess.payload ⟨.read, src, DmaEngine.chunk remaining⟩ buf) ∧
      C (DmaAccess.payload ⟨.write, dst, DmaEngine.chunk remaining⟩ buf'))
    (hd : w.dmaThread th buf = some (th', w')) :
    SocSteps C (th, w.targets) (th', w'.targets) := by
  cases th with
  | waiting =>
    cases hd
    exact steps_dmaNext h _ _
  | copying remaining src dst =>
    unfold BusPort.dmaThread at hd
    dsimp only at hd
    split at hd
    next hpos =>
      obtain ⟨⟨rtrans, w₁⟩, hr, hd⟩ := Option.bind_eq_some_iff.1 hd
      have hsteps : SocSteps C (.copying remaining src dst, w.targets) (_, w₁.targets) :=
        steps_transport (by decide) (hC src dst remaining buf rfl hpos).1 hr
      have h₁ := h.steps hsteps
      dsimp only at hd
      split at hd
      · cases hd
        exact hsteps.trans (steps_dmaNext h₁ _ _)
      · obtain ⟨⟨wtrans, w₂⟩, hwr, hd⟩ := Option.bind_eq_some_iff.1 hd
        have hsteps₂ : SocSteps C (.copying remaining src dst, w₁.targets) (_, w₂.targets) :=
          steps_transport (by decide) (hC src dst remaining rtrans.data rfl hpos).2 hwr
        cases hd
        exact (hsteps.trans hsteps₂).trans (steps_dmaNext (h₁.steps hsteps₂) _ _)
    · cases hd
      exact steps_dmaNext h _ _

theorem steps_sdThread (h : SocInv (th, w.targets)) {sd sd' : SdThread} {buf : SdBlock}
    (hC : ∀ dest block, C (SdOnBus.payload dest block))
    (hd : w.sdThread sd buf = some (sd', w')) : SocSteps C (th, w.targets) (th, w'.targets) := by
  have hown (w : BusPort Device) (h : SocInv (th, w.targets)) (f : Peripheral → Device)
      (hf : ∀ u, Evolves th th u (f u)) :
      SocSteps C (th, w.targets) (th, (w.onDevice 8 f).targets) :=
    steps_onDevice h (by decide) (by decide) (fun u _ _ => hf u) (fun _ => rfl) (by decide)
  cases sd with
  | waiting =>
    unfold BusPort.sdThread at hd
    dsimp only at hd
    split at hd
    · cases hd
      exact hown w h _ fun u => evolves_sdStart th u
    · cases hd
      exact .refl
  | looping i blocks blockAddr dest ok =>
    unfold BusPort.sdThread at hd
    dsimp only at hd
    split at hd
    · have hread := hown w h _ fun u => evolves_sdRead th (blockAddr + i) buf u
      have h₁ := h.steps hread
      split at hd
      · obtain ⟨⟨answer, w₂⟩, hwr, hd⟩ := Option.bind_eq_some_iff.1 hd
        cases hd
        exact hread.trans (steps_transport (by decide) (hC _ _) hwr)
      · cases hd
        exact hread.trans (hown _ h₁ _ fun u => evolves_sdFinish th false u)
    · cases hd
      exact hown w h _ fun u => evolves_sdFinish th ok u

/-! ### Steps and runs -/

/-- What `C` asks of the transactions of a step. -/
def VpInput.Allowed (C : ∀ {n : ℕ}, Payload n → Prop) (s : Vp) : VpInput → Prop
  | .cycle pick => ∀ x ∈ s.iss.busOps vpBus pick, x.1.Allowed C
  | .dmaThread buf => ∀ src dst remaining buf', s.dmaThread = .copying remaining src dst →
      remaining > 0 → C (DmaAccess.payload ⟨.read, src, DmaEngine.chunk remaining⟩ buf) ∧
        C (DmaAccess.payload ⟨.write, dst, DmaEngine.chunk remaining⟩ buf')
  | .sdThread _ => ∀ dest block, C (SdOnBus.payload dest block)
  | _ => True

namespace Vp

variable {s : Vp}

@[simp] theorem driven_bus (s : Vp) : s.driven.iss.env.bus = s.iss.env.bus := by
  unfold driven
  split
  · rfl
  · rfl

@[simp] theorem driven_dmaThread (s : Vp) : s.driven.dmaThread = s.dmaThread := by
  unfold driven
  split
  · rfl
  · rfl

@[simp] theorem driven_sdThread (s : Vp) : s.driven.sdThread = s.sdThread := by
  unfold driven
  split
  · rfl
  · rfl

/-- Every device is in order, as long as the world behind the bus is known. -/
def Inv (s : Vp) : Prop := ∀ w ∈ s.iss.env.bus, SocInv (s.dmaThread, w.targets)

theorem bus_iterate_none {iss : ISS (Option (BusPort Device))} (h : iss.env.bus = none)
    (pick : Tlb → ℕ) : (iss.iterate vpBus pick).1.env.bus = none := by
  have hkeeps : vpBus.Keeps fun b => b = none :=
    { read := by
        rintro _ rfl a n
        rfl
      write := by
        rintro _ rfl a v n
        rfl
      dropDmi := by
        rintro _ rfl
        rfl }
  exact hkeeps.iterate pick h

/-- The device at a socket, other than the PLIC and the DMA engine, changes by itself. -/
theorem steps_own (h : s.Inv) {i : ℕ} {f : Peripheral → Device} (hlo : 2 ≤ i) (hhi : i ≤ 11)
    (h3 : i ≠ 3) (hf : ∀ u, Evolves s.dmaThread s.dmaThread u (f u)) :
    ∀ w' ∈ (s.onDevice i f).iss.env.bus, ∃ w ∈ s.iss.env.bus,
      SocSteps C (s.dmaThread, w.targets) (s.dmaThread, w'.targets) := by
  intro w' hw'
  obtain ⟨w, hw, rfl⟩ := Option.map_eq_some_iff.1 hw'
  exact ⟨w, hw, steps_onDevice (h w hw) hlo hhi (fun u _ _ => hf u) (fun _ => rfl) h3⟩

/-- **A step of the platform is a sequence of changes of the devices.** -/
theorem steps_act (h : s.Inv) {i : VpInput} (hC : i.Allowed C s) :
    ∀ w' ∈ (s.act i).1.iss.env.bus, ∃ w ∈ s.iss.env.bus,
      SocSteps C (s.dmaThread, w.targets) ((s.act i).1.dmaThread, w'.targets) := by
  cases i with
  | cycle pick =>
    intro w' hw'
    cases hw : s.iss.env.bus with
    | none => cases (bus_iterate_none hw pick).symm.trans hw'
    | some w => exact ⟨w, rfl, steps_iterate hC hw hw'⟩
  | clintTick =>
    exact steps_own h (by decide) (by decide) (by decide) fun u => evolves_clintTick _ u
  | timerTick =>
    exact steps_own h (by decide) (by decide) (by decide) fun u => evolves_timerTick _ u
  | pushRx byte =>
    exact steps_own h (by decide) (by decide) (by decide) fun u => evolves_pushRx _ byte u
  | setInput pins =>
    exact steps_own h (by decide) (by decide) (by decide) fun u => evolves_setInput _ pins u
  | dmaThread buf =>
    intro w' hw'
    unfold act onThread at hw' ⊢
    dsimp only at hw' ⊢
    cases hx : s.iss.env.bus.bind (·.dmaThread s.dmaThread buf) with
    | none =>
      rw [hx] at hw'
      cases hw'
    | some x =>
      rw [hx] at hw'
      cases hw'
      obtain ⟨w, hw, hd⟩ := Option.bind_eq_some_iff.1 hx
      exact ⟨w, hw, steps_dmaThread (h w hw) hC hd⟩
  | sdThread buf =>
    intro w' hw'
    unfold act onThread at hw' ⊢
    dsimp only at hw' ⊢
    cases hx : s.iss.env.bus.bind (·.sdThread s.sdThread buf) with
    | none =>
      rw [hx] at hw'
      cases hw'
    | some x =>
      rw [hx] at hw'
      cases hw'
      obtain ⟨w, hw, hd⟩ := Option.bind_eq_some_iff.1 hx
      exact ⟨w, hw, steps_sdThread (h w hw) hC hd⟩
  | halt | resume | step => exact fun w hw => ⟨w, hw, .refl⟩

theorem steps_next (h : s.Inv) {i : VpInput} (hC : i.Allowed C s) :
    ∀ w' ∈ (vpMachine.next s i).iss.env.bus, ∃ w ∈ s.iss.env.bus,
      SocSteps C (s.dmaThread, w.targets) ((vpMachine.next s i).dmaThread, w'.targets) := by
  intro w' hw'
  change w' ∈ (s.act i).1.driven.iss.env.bus at hw'
  rw [driven_bus] at hw'
  obtain ⟨w, hw, hsteps⟩ := steps_act h hC w' hw'
  refine ⟨w, hw, ?_⟩
  change SocSteps C _ ((s.act i).1.driven.dmaThread, w'.targets)
  rwa [driven_dmaThread]

theorem allowed_true (s : Vp) (i : VpInput) : i.Allowed (fun _ => True) s := by
  cases i with
  | cycle pick =>
    intro x _
    cases x.1 with
    | read => trivial
    | write => exact fun _ _ => trivial
    | dropDmi => trivial
  | dmaThread buf => exact fun _ _ _ _ _ _ => ⟨trivial, trivial⟩
  | sdThread buf => exact fun _ _ => trivial
  | _ => trivial

theorem Inv.next (h : s.Inv) (i : VpInput) : (vpMachine.next s i).Inv := by
  intro w' hw'
  obtain ⟨w, hw, hsteps⟩ := steps_next h (allowed_true s i) w' hw'
  exact (h w hw).steps hsteps

variable (rom : Vector Byte bootRomSize.toNat) (ram : Vector Byte ramSize.toNat)
  (card : Option SDCardModel)

theorem inv_reset : (Vp.reset rom ram card).Inv := by
  intro w hw
  cases hw
  constructor
  · intro i hlo hhi
    interval_cases i
    case «8» => exact ⟨_, rfl, rfl, trivial⟩
    all_goals exact ⟨_, rfl, rfl, [], rfl⟩
  · intro i hi d
    interval_cases i
    · exact fun h => by cases h
    · exact fun h => by cases h

theorem inv_run (is : List VpInput) : (vpMachine.run (Vp.reset rom ram card) is).Inv :=
  Machine.run_invariant (inv_reset rom ram card) (fun _ i h => h.next i) is

theorem heard_reset : ∀ w ∈ (Vp.reset rom ram card).iss.env.bus, Heard w.targets := by
  intro w hw
  cases hw
  intro l hl p u hp hu hpending
  cases hp
  simp at hpending

end Vp

end VirtualSoC
