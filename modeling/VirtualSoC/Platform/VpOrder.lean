import VirtualSoC.Lib.Commute
import VirtualSoC.Platform.VpConfined
import VirtualSoC.Platform.VpInterrupts

/-!
# The order of simultaneous events

Between two iterations of the run loop the timers tick, bytes arrive and pins change.  The kernel
resumes processes that are ready at the same moment in no particular order; `vp_order` says that the
order among different devices does not matter, because each calls `set_pending` for its own source
(`changeDevice_comm`), and the lines of the CPU are those of the devices at the end.
-/

namespace VirtualSoC

open Cfg

/-! ### Calls of `set_pending` -/

namespace Plic

/-- The word with the bit `i` replaced. -/
def replaceBit (x : Word) (i : ℕ) (v : Bool) : Word := if v then x ||| bit i else x &&& ~~~bit i

theorem getLsbD_replaceBit (x : Word) (i : ℕ) (v : Bool) {k : ℕ} (hk : k < 32) :
    (replaceBit x i v).getLsbD k = if k = i then v else x.getLsbD k := by
  have hbit : (bit i).getLsbD k = decide (k = i) := by
    rw [BitVec.getLsbD_twoPow]
    by_cases hki : k = i
    · subst hki
      simp [hk]
    · simp [hki, Ne.symm hki]
  unfold replaceBit
  cases v with
  | true =>
    rw [if_pos rfl, BitVec.getLsbD_or, hbit]
    by_cases hki : k = i <;> simp [hki]
  | false =>
    rw [if_neg Bool.false_ne_true, BitVec.getLsbD_and, BitVec.getLsbD_not, hbit]
    by_cases hki : k = i <;> simp [hki, hk]

theorem replaceBit_comm (x : Word) {i j : ℕ} (hij : i ≠ j) (v v' : Bool) :
    replaceBit (replaceBit x i v) j v' = replaceBit (replaceBit x j v') i v := by
  refine BitVec.eq_of_getLsbD_eq fun k hk => ?_
  rw [getLsbD_replaceBit _ _ _ hk, getLsbD_replaceBit _ _ _ hk, getLsbD_replaceBit _ _ _ hk,
    getLsbD_replaceBit _ _ _ hk]
  split_ifs with h₁ h₂
  · exact absurd (h₂.symm.trans h₁) hij
  all_goals rfl

theorem setPending_eq (p : Plic) (a : Word) (v : Bool) : p.setPending a v =
    if a = 0 ∨ a.toNat ≥ irqNumSources then p
    else evaluateIrq { p with pending := replaceBit p.pending a.toNat v } := by
  unfold setPending replaceBit
  cases v <;> rfl

/-- Calls for different sources may be swapped: the line is driven by the requests at the end. -/
theorem setPending_comm (p : Plic) {a b : Word} (hab : a.toNat ≠ b.toNat) (v v' : Bool) :
    (p.setPending a v).setPending b v' = (p.setPending b v').setPending a v := by
  have hcomm := replaceBit_comm p.pending hab v v'
  rw [setPending_eq p, setPending_eq p, setPending_eq, setPending_eq]
  split_ifs
  · rfl
  · rfl
  · rfl
  · change evaluateIrq { p with pending := _ } = evaluateIrq { p with pending := _ }
    dsimp only [evaluateIrq]
    rw [hcomm]

end Plic

/-! ### One device calls -/

theorem foldl_foldl_comm {α β γ : Type*} {f : α → β → α} {g : α → γ → α} {l : List β} {l' : List γ}
    (h : ∀ a, ∀ x ∈ l, ∀ y ∈ l', g (f a x) y = f (g a y) x) (a : α) :
    l'.foldl g (l.foldl f a) = l.foldl f (l'.foldl g a) := by
  induction l generalizing a with
  | nil => rfl
  | cons x l ih =>
    have hx : l'.foldl g (f a x) = f (l'.foldl g a) x := by
      have hstep : ∀ y ∈ l', ∀ b, g (f b x) y = f (g b y) x := fun y hy b =>
        h b x List.mem_cons_self y hy
      clear ih h
      induction l' generalizing a with
      | nil => rfl
      | cons y l' ih =>
        rw [List.foldl_cons, List.foldl_cons, hstep y List.mem_cons_self,
          ih _ fun z hz => hstep z (List.mem_cons_of_mem y hz)]
    rw [List.foldl_cons, List.foldl_cons,
      ih (fun a z hz => h a z (List.mem_cons_of_mem x hz)), hx]

namespace Peripheral

/-- The call of the device at the socket reaches the PLIC along a wire. -/
def hearFrom (socket : ℕ) (call : Option Bool) (u : Peripheral) (wire : ℕ × Word) : Peripheral :=
  if wire.1 = socket then
    match call with
    | some v => u.setPending wire.2 v
    | none => u
  else u

/-- The call of the device at the socket reaches the PLIC. -/
def hearCall (socket : ℕ) (call : Option Bool) (u : Peripheral) : Peripheral :=
  irqWires.foldl (hearFrom socket call) u

variable {t : ℕ → Target Device} {a b : ℕ}

theorem hear_update (h : AllHeard t) (X : Target Device) (u : Peripheral) :
    u.hear (Function.update t a X) = u.hearCall a X.call := by
  refine List.foldl_ext _ _ _ fun u l _ => ?_
  unfold hearWire hearFrom
  by_cases hl : l.1 = a
  · have hcall : (Function.update t a X l.1).call = X.call := by rw [hl, Function.update_self]
    rw [hcall]
    cases X.call with
    | none => exact (if_pos hl).symm
    | some v => exact (if_pos hl).symm
  · rw [Function.update_of_ne hl, h l.1, if_neg hl]

theorem hearFrom_comm {l l' : ℕ × Word} (hne : l.2.toNat ≠ l'.2.toNat) (c c' : Option Bool)
    (u : Peripheral) :
    (u.hearFrom a c l).hearFrom b c' l' = (u.hearFrom b c' l').hearFrom a c l := by
  unfold hearFrom
  split_ifs
  · cases c with
    | none => rfl
    | some v =>
      cases c' with
      | none => rfl
      | some v' =>
        cases u with
        | plic p => exact congrArg plic (p.setPending_comm hne v v')
        | _ => rfl
  all_goals rfl

/-- The wires of two devices lead to different sources. -/
theorem hearCall_comm (hab : a ≠ b) (c c' : Option Bool) (u : Peripheral) :
    (u.hearCall a c).hearCall b c' = (u.hearCall b c').hearCall a c := by
  have hsources : ∀ l ∈ irqWires, ∀ l' ∈ irqWires, l.1 ≠ l'.1 → l.2.toNat ≠ l'.2.toNat := by decide
  refine foldl_foldl_comm (fun u l hl l' hl' => ?_) u
  by_cases hne : l.1 = l'.1
  · -- one wire: it is the wire of at most one of them
    unfold hearFrom
    by_cases hla : l.1 = a
    · have hlb : ¬ l'.1 = b := fun hb => hab (hla.symm.trans (hne.trans hb))
      simp only [if_pos hla, if_neg hlb]
    · simp only [if_neg hla]
  · exact hearFrom_comm (hsources l hl l' hl' hne) c c' u

end Peripheral

/-! ### One device changes -/

/-- The PLIC has heard of all calls, and there is one PLIC. -/
structure Settled (t : ℕ → Target Device) : Prop where
  heard : AllHeard t
  plic : ∀ j ≠ 3, ∀ d, t j = .device d → d.unit.socket ≠ 3

section Change

variable {t : ℕ → Target Device} {a b : ℕ} {f g : Peripheral → Device}

theorem Target.mapDevice_mapDevice {δ : Type} (t : Target δ) (f g : δ → δ) :
    (t.mapDevice f).mapDevice g = t.mapDevice fun d => g (f d) := by
  cases t <;> rfl

theorem Target.mapDevice_congr {δ : Type} {t : Target δ} {f g : δ → δ}
    (h : ∀ d, t = .device d → f d = g d) : t.mapDevice f = t.mapDevice g := by
  cases t with
  | memory m | bootRom m => rfl
  | device d => exact congrArg Target.device (h d rfl)

/-- The targets after a device has changed and has been heard. -/
theorem changeDevice_apply (h : Settled t) (ha : a ≠ 3) (hf : ∀ u, (f u).unit.socket = u.socket)
    (j : ℕ) : changeDevice t a f j =
      if j = a then (t a).mapDevice fun d => ⟨(f d.unit).unit, none⟩
      else if j = 3 then (t 3).mapDevice fun d =>
        ⟨d.unit.hearCall a ((t a).mapDevice fun d => f d.unit).call, none⟩
      else t j := by
  unfold changeDevice deliver
  by_cases hja : j = a
  · subst hja
    rw [Function.update_self, Target.mapDevice_mapDevice, if_pos rfl]
    refine Target.mapDevice_congr fun d hd => ?_
    rw [hear_of_ne]
    rw [hf]
    exact h.plic j ha d hd
  · rw [Function.update_of_ne hja, if_neg hja]
    by_cases hj3 : j = 3
    · subst hj3
      rw [if_pos rfl]
      refine Target.mapDevice_congr fun d hd => ?_
      rw [Peripheral.hear_update h.heard]
    · rw [if_neg hj3]
      have hid : (t j).mapDevice (fun d => (d : Device)) = t j := by
        cases t j <;> rfl
      conv_rhs => rw [← hid]
      refine Target.mapDevice_congr fun d hd => ?_
      have hcall : d.call = none := by
        have hj := h.heard j
        rw [hd] at hj
        exact hj
      rw [hear_of_ne _ (h.plic j hj3 d hd)]
      obtain ⟨u, c⟩ := d
      exact congrArg (Device.mk u) hcall.symm

theorem Settled.change (h : Settled t) (ha : a ≠ 3) (hf : ∀ u, (f u).unit.socket = u.socket) :
    Settled (changeDevice t a f) where
  heard := allHeard_deliver _
  plic j hj d hd := by
    rw [changeDevice_apply h ha hf] at hd
    split_ifs at hd with hja
    · cases ht : t a with
      | memory m | bootRom m =>
        rw [ht] at hd
        cases hd
      | device d' =>
        rw [ht] at hd
        cases hd
        dsimp only
        rw [hf]
        exact h.plic a ha d' ht
    · exact h.plic j hj d hd

/-- **Changes of two devices may be swapped.** -/
theorem changeDevice_comm (h : Settled t) (ha : a ≠ 3) (hb : b ≠ 3) (hab : a ≠ b)
    (hf : ∀ u, (f u).unit.socket = u.socket) (hg : ∀ u, (g u).unit.socket = u.socket) :
    changeDevice (changeDevice t a f) b g = changeDevice (changeDevice t b g) a f := by
  funext j
  rw [changeDevice_apply (h.change ha hf) hb hg, changeDevice_apply (h.change hb hg) ha hf]
  simp only [changeDevice_apply h ha hf, changeDevice_apply h hb hg, if_neg hab, if_neg hab.symm,
    if_neg ha.symm, if_neg hb.symm, if_neg ha, if_neg hb, if_true]
  by_cases hja : j = a
  · simp only [hja, if_true, if_neg hab, if_neg ha]
  by_cases hjb : j = b
  · simp only [hjb, if_true, if_neg hab.symm, if_neg hb]
  by_cases hj3 : j = 3
  · simp only [hj3, if_neg ha.symm, if_neg hb.symm, if_true, Target.mapDevice_mapDevice]
    refine Target.mapDevice_congr fun d hd => ?_
    rw [Peripheral.hearCall_comm hab]
  · simp only [if_neg hja, if_neg hjb, if_neg hj3]

end Change

/-! ### Runs -/

section Runs

variable {t t' : ℕ → Target Device} {th th' : DmaThread}

theorem Settled.deliver_update (h : Settled t) {j : ℕ} {X : Target Device}
    (hX : j ≠ 3 → ∀ d, X = .device d → d.unit.socket ≠ 3) :
    Settled (deliver (Function.update t j X)) where
  heard := allHeard_deliver _
  plic i hi d hd := by
    have hsocket : ∀ d, Function.update t j X i = .device d → d.unit.socket ≠ 3 := by
      intro d hd
      by_cases hij : i = j
      · subst hij
        rw [Function.update_self] at hd
        exact hX hi d hd
      · rw [Function.update_of_ne hij] at hd
        exact h.plic i hi d hd
    dsimp only [deliver] at hd
    generalize Function.update t j X i = Y at hd hsocket
    cases Y with
    | memory m | bootRom m => cases hd
    | device d' =>
      cases hd
      rw [(evolves_hear _ d'.unit : Evolves .waiting .waiting _ _).socket]
      exact hsocket d' rfl

theorem Settled.changes (h : Settled t) {j : ℕ} {X : Target Device} (hX : Changes th th' t j X) :
    Settled (deliver (Function.update t j X)) := by
  refine h.deliver_update fun hj d hd => ?_
  cases ht : t j with
  | memory m | bootRom m => exact absurd hd (hX.memory (by rw [ht]; exact fun _ => nofun) d)
  | device d' =>
    obtain ⟨u, c⟩ := d'
    have hcall := h.heard j
    rw [ht] at hcall
    cases hcall
    obtain ⟨d'', hd'', hevolves⟩ := hX.device u ht
    cases hd.symm.trans hd''
    rw [hevolves.socket]
    exact h.plic j hj _ ht

theorem Settled.step {C : ∀ {n : ℕ}, Payload n → Prop} (h : Settled t)
    (hs : SocStep C (th, t) (th', t')) : Settled t' := by
  generalize hx : (th, t) = x at hs
  generalize hy : (th', t') = y at hs
  cases hs with
  | idle =>
    cases hx
    cases hy
    rw [deliver_of_allHeard h.heard]
    exact h
  | transact hn hC hb =>
    cases hx
    cases hy
    obtain ⟨j, X, rfl, hX, -⟩ := exists_changes_of_bTransport th hn hb
    exact h.changes hX
  | device hu hd hth hp =>
    cases hx
    cases hy
    exact h.changes (changes_device hu hd hth)
  | host hw =>
    cases hx
    cases hy
    obtain ⟨-, hnew⟩ := Target.ne_device_of_hostWrite hw
    rename_i i n off k src m
    constructor
    · intro j
      by_cases hj : j = i
      · subst hj
        rw [Function.update_self]
        cases hm : m with
        | memory r | bootRom r => rfl
        | device d => exact absurd hm (hnew d)
      · rw [Function.update_of_ne hj]
        exact h.heard j
    · intro j hj d hd
      by_cases hji : j = i
      · subst hji
        rw [Function.update_self] at hd
        exact absurd hd (hnew d)
      · rw [Function.update_of_ne hji] at hd
        exact h.plic j hj d hd

end Runs

/-- The platform between two steps. -/
structure Vp.InOrder (s : Vp) : Prop where
  inv : s.Inv
  settled : ∀ w ∈ s.iss.env.bus, Settled w.targets

theorem Vp.InOrder.next {s : Vp} (h : s.InOrder) (i : VpInput) : (vpMachine.next s i).InOrder where
  inv := h.inv.next i
  settled w' hw' := by
    obtain ⟨w, hw, hsteps⟩ := Vp.steps_next h.inv (Vp.allowed_true s i) w' hw'
    have hw₀ := h.settled w hw
    generalize hx : (s.dmaThread, w.targets) = x at hsteps
    generalize hy : ((vpMachine.next s i).dmaThread, w'.targets) = y at hsteps
    have hsettled : Settled y.2 := by
      clear hy
      induction hsteps with
      | refl =>
        subst hx
        exact hw₀
      | tail _ hstep ih => exact ih.step hstep
    subst hy
    exact hsettled

theorem Vp.inOrder_run (rom : Vector Byte bootRomSize.toNat) (ram : Vector Byte ramSize.toNat)
    (card : Option SDCardModel) (is : List VpInput) :
    (vpMachine.run (Vp.reset rom ram card) is).InOrder := by
  refine Machine.run_invariant ⟨Vp.inv_reset rom ram card, ?_⟩ (fun _ i h => h.next i) is
  rintro w ⟨⟩
  refine ⟨allHeard_reset rom ram card, fun j hj d hd => ?_⟩
  have hdevices (i : ℕ) (hi : i ≠ 3) : (initialDevices card i).unit.socket ≠ 3 := by
    unfold initialDevices
    split <;> first | exact absurd rfl hi | simp [Peripheral.socket]
  dsimp only [platformTargets] at hd
  split at hd
  · cases hd
  · cases hd
  · cases hd
    exact hdevices _ hj

/-! ### The order of the events -/

/-- A device that changes by itself, where no bus is needed for it. -/
def VpInput.own : VpInput → Option (ℕ × (Peripheral → Device))
  | .clintTick => some (2, (·.clintTick))
  | .timerTick => some (6, (·.timerTick))
  | .pushRx byte => some (4, (·.pushRx byte))
  | .setInput pins => some (5, (·.setInput pins))
  | _ => none

/-- The socket of the device that a tick, a byte or a pin change is for. -/
def VpInput.socket (i : VpInput) : Option ℕ := i.own.map (·.1)

theorem VpInput.own_spec {i : VpInput} {a : ℕ} {f : Peripheral → Device} (h : i.own = some (a, f)) :
    a ≠ 3 ∧ (∀ u, (f u).unit.socket = u.socket) ∧
      ∀ s, vpMachine.next s i = (s.onDevice a f).driven := by
  cases i with
  | clintTick =>
    cases h
    exact ⟨by decide, fun u => (evolves_clintTick .waiting u).socket, fun _ => rfl⟩
  | timerTick =>
    cases h
    exact ⟨by decide, fun u => (evolves_timerTick .waiting u).socket, fun _ => rfl⟩
  | pushRx byte =>
    cases h
    exact ⟨by decide, fun u => (evolves_pushRx .waiting byte u).socket, fun _ => rfl⟩
  | setInput pins =>
    cases h
    exact ⟨by decide, fun u => (evolves_setInput .waiting pins u).socket, fun _ => rfl⟩
  | _ => cases h

/-- The lines that are driven last are the ones that show. -/
theorem CSRFile.setLines_setLines (c : CSRFile) (w w' : BusPort Device) :
    (c.setLines w).setLines w' = c.setLines w' := by
  have hfields (c : CSRFile) (w : BusPort Device) :
      c.setLines w = { c with hwMip := (c.setLines w).hwMip } := by
    unfold setLines setHwBit
    split_ifs <;> rfl
  have hhw : ((c.setLines w).setLines w').hwMip = (c.setLines w').hwMip := by
    refine BitVec.eq_of_getLsbD_eq fun b _ => ?_
    rw [getLsbD_setLines, getLsbD_setLines, getLsbD_setLines]
    split_ifs <;> rfl
  rw [hfields (c.setLines w), hhw, hfields c w, hfields c w']

theorem Vp.onDevice_comm {s : Vp} (h : s.InOrder) {a b : ℕ} {f g : Peripheral → Device} (ha : a ≠ 3)
    (hb : b ≠ 3) (hab : a ≠ b) (hf : ∀ u, (f u).unit.socket = u.socket)
    (hg : ∀ u, (g u).unit.socket = u.socket) :
    ((s.onDevice a f).driven.onDevice b g).driven =
      ((s.onDevice b g).driven.onDevice a f).driven := by
  have hnext (w : BusPort Device) (hw : s.iss.env.bus = some w) (a b : ℕ)
      (f g : Peripheral → Device) : ((s.onDevice a f).driven.onDevice b g).driven =
        ((s.withBus (some ((w.onDevice a f).onDevice b g))).driven : Vp) := by
    unfold Vp.onDevice
    rw [hw]
    unfold Vp.driven Vp.withBus
    dsimp only [Option.map_some]
    rw [CSRFile.setLines_setLines]
  cases hw : s.iss.env.bus with
  | none =>
    have hnone (a : ℕ) (f : Peripheral → Device) : (s.onDevice a f).driven = s := by
      obtain ⟨⟨_, ⟨_, _, _, _, _⟩, _, _, _, _, _⟩, _, _⟩ := s
      cases hw
      rfl
    simp only [hnone]
  | some w =>
    have hcomm : (w.onDevice a f).onDevice b g = (w.onDevice b g).onDevice a f :=
      congrArg (fun targets => { w with targets })
        (changeDevice_comm (h.settled w hw) ha hb hab hf hg)
    rw [hnext w hw, hnext w hw, hcomm]

/-- Ticks, bytes and pin changes at different devices may be swapped. -/
theorem vpMachine_commutes :
    vpMachine.Commutes Vp.InOrder (fun i => i.own.isSome) VpInput.socket where
  keeps h _ := h.next _
  swap {s i j} h hi hj hne := by
    obtain ⟨⟨a, f⟩, hi⟩ := Option.isSome_iff_exists.1 hi
    obtain ⟨⟨b, g⟩, hj⟩ := Option.isSome_iff_exists.1 hj
    obtain ⟨ha, hf, hnext⟩ := VpInput.own_spec hi
    obtain ⟨hb, hg, hnext'⟩ := VpInput.own_spec hj
    have hab : a ≠ b := by
      rintro rfl
      exact hne (by rw [VpInput.socket, VpInput.socket, hi, hj]; rfl)
    rw [hnext, hnext', hnext, hnext']
    exact Vp.onDevice_comm h ha hb hab hf hg

/-- In every reachable state of the platform the order in which the ticks, the bytes and the pin
changes of different devices arrive does not matter: two sequences of them that are the same for
each device lead to the same state of the whole platform. -/
theorem vp_order (rom : Vector Byte bootRomSize.toNat) (ram : Vector Byte ramSize.toNat)
    (card : Option SDCardModel) (pre : List VpInput) {is js : List VpInput}
    (his : ∀ i ∈ is, i.own.isSome) (hjs : ∀ j ∈ js, j.own.isSome)
    (hsame : ∀ k, is.filter (·.socket = k) = js.filter (·.socket = k)) :
    vpMachine.run (Vp.reset rom ram card) (pre ++ is) =
      vpMachine.run (Vp.reset rom ram card) (pre ++ js) := by
  rw [Machine.run_append, Machine.run_append]
  exact vpMachine_commutes.run_eq (Vp.inOrder_run rom ram card pre) his hjs hsame

/-- A byte and the ticks of both timers. -/
theorem vp_order_ticks :
    vpMachine.run (Vp.reset (.replicate _ 0) (.replicate _ 0) none)
        ([.cycle fun _ => 0] ++ [.clintTick, .timerTick, .pushRx 0x41, .clintTick]) =
      vpMachine.run (Vp.reset (.replicate _ 0) (.replicate _ 0) none)
        ([.cycle fun _ => 0] ++ [.pushRx 0x41, .clintTick, .clintTick, .timerTick]) := by
  refine vp_order _ _ none [.cycle fun _ => 0] (by simp [VpInput.own]) (by simp [VpInput.own])
    fun k => ?_
  simp only [VpInput.socket, VpInput.own, Option.map_some, List.filter_cons, List.filter_nil]
  by_cases h2 : some 2 = k
  · subst h2
    rfl
  · by_cases h4 : some 4 = k
    · subst h4
      rfl
    · simp [h2, h4]

end VirtualSoC
