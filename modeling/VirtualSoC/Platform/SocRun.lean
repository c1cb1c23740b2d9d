import VirtualSoC.Cpu.DmiSpec
import VirtualSoC.Dma.DmaSpec
import VirtualSoC.Io.UartSpec
import VirtualSoC.Irq.PlicSpec
import VirtualSoC.Platform.Soc

/-!
# The devices of the platform go through runs of their own machines

Whatever acts on the platform, what it does to one device is what an input of that device's own
machine does (`Evolves`): a register access, a tick, a call of the host, a call of `set_pending`, or
a round of its thread.  So in every reachable state of the platform each device but the SD
controller is in a state that its machine reaches (`SocInv`), and shows with its line what the runs
of the single device say.
-/

namespace VirtualSoC

theorem exists_run_next {σ ι ο : Type*} {M : Machine σ ι ο} {s₀ s : σ}
    (h : ∃ is, M.run s₀ is = s) (i : ι) : ∃ is, M.run s₀ is = M.next s i := by
  obtain ⟨is, rfl⟩ := h
  exact ⟨is ++ [i], Machine.run_snoc ..⟩

namespace Peripheral

/-- The socket of the bus that the constructor binds the device to. -/
def socket : Peripheral → ℕ
  | clint _ => 2
  | plic _ => 3
  | uart _ => 4
  | gpio _ => 5
  | timer _ => 6
  | spi _ => 7
  | sdCtrl _ => 8
  | dma _ => 9
  | fbCtrl _ => 10
  | audio _ => 11

/-- A run of the device's own machine reaches this state; the thread of the DMA engine is at
`thread`.  Of the SD controller nothing is asked: its line is looked at only (`Evolves.heard`). -/
def Reached (thread : DmaThread) : Peripheral → Prop
  | clint c => ∃ is, clintMachine.run {} is = c
  | plic p => ∃ is, plicMachine.run {} is = p
  | uart u => ∃ is, uartMachine.run {} is = u
  | gpio g => ∃ is, gpioMachine.run {} is = g
  | timer t => ∃ is, timerMachine.run {} is = t
  | spi s => ∃ is, (spiMachine none).run { slave := () } is = s
  | sdCtrl _ => True
  | dma e => ∃ is, dmaMachine.run {} is = ⟨e, thread⟩
  | fbCtrl f => ∃ is, fbMachine.run {} is = f
  | audio o => ∃ is, audioMachine.run {} is = o

end Peripheral

/-- What a step does to a device `u`: it leaves `d`, and takes the thread of the DMA engine from
`th` to `th'`.  The calls of `on_irq` tell the level. -/
structure Evolves (th th' : DmaThread) (u : Peripheral) (d : Device) : Prop where
  socket : d.unit.socket = u.socket
  reached : u.Reached th → d.unit.Reached th'
  heard : d.call.getD u.irq = d.unit.irq

/-! ### The accesses that call `on_irq` -/

section Lines

variable {w : Bool} {a val : Word}

theorem Gpio.irq_access (g : Gpio) (h : ¬ (w ∧ (a = 0x0C ∨ a = 0x10))) :
    ((g.access w a val).elim g Prod.snd).irq = g.irq := by
  unfold access
  split_ifs <;> first | rfl | exact absurd ⟨‹_›, by simp [*]⟩ h

theorem Timer.irq_access (t : Timer)
    (h : ¬ (w ∧ (a = 0x00 ∨ a = 0x04 ∨ a = 0x08 ∨ a = 0x0C ∨ a = 0x10))) :
    ((t.access w a val).elim t Prod.snd).irq = t.irq := by
  unfold access
  split_ifs <;> first | rfl | exact absurd ⟨‹_›, by simp [*]⟩ h

theorem SDCtrl.irqCalls_access (c : SDCtrl) (h : ¬ (w ∧ a = 0x10)) :
    ((c.access w a val).elim c Prod.snd).irqCalls = c.irqCalls := by
  unfold access
  split_ifs <;> first | rfl | exact absurd ⟨‹_›, ‹_›⟩ h

theorem DmaEngine.irq_access (e : DmaEngine) (h : ¬ (w ∧ a = 0x10)) :
    ((e.access w a val).elim e Prod.snd).irq = e.irq := by
  unfold access
  split_ifs <;> first | rfl | exact absurd ⟨‹_›, ‹_›⟩ h

theorem FBCtrl.irq_access (f : FBCtrl) (h : ¬ (w ∧ (a = 0x10 ∨ a = 0x14))) :
    ((f.access w a val).elim f Prod.snd).irq = f.irq := by
  unfold access
  split_ifs <;> first | rfl | exact absurd ⟨‹_›, by simp [*]⟩ h

theorem AudioOut.irq_access (o : AudioOut) (h : ¬ (w ∧ a = 0x18)) :
    ((o.access w a val).elim o Prod.snd).irq = o.irq := by
  unfold access
  split_ifs <;> first | rfl | exact absurd ⟨‹_›, ‹_›⟩ h

theorem Uart.irq_access {u u' : Uart} {v : Word} (h : u.access w a val = some (v, u'))
    (hcall : ¬ (a = regRbrThr ∨ w ∧ a = regIer)) : u'.irq = u.irq := by
  unfold access at h
  repeat' split at h
  all_goals cases h
  all_goals first
    | rfl
    | exact absurd (.inl ‹_›) hcall
    | exact absurd (.inr ⟨‹_›, ‹_›⟩) hcall

end Lines

/-! ### Register accesses -/

namespace Uart

theorem access_read_val (u : Uart) (a val : Word) : u.access false a val = u.access false a 0 := by
  unfold access
  simp only [Bool.false_eq_true, if_false]

/-- An access of a register is what some transaction does. -/
theorem exists_next_of_access {u u' : Uart} {w : Bool} {a val v : Word}
    (h : u.access w a val = some (v, u')) : ∃ i, uartMachine.next u i = u' := by
  have haddr : ((a.setWidth 64).setWidth 32 : Word) = a := setWidth_setWidth_word a
  cases w with
  | true =>
    let trans : Payload 4 := ⟨.write, a.setWidth 64, Bytes.toLE val 4, 4, .incomplete⟩
    have hval : trans.getVal = some val :=
      (congrArg (Option.map Bytes.ofLE) (Buffer.copy_self _ _)).trans
        (congrArg some (Bytes.ofLE_toLE val le_rfl))
    have ht : u.bTransport trans = some ({ trans with response := .ok }, u') := by
      rw [bTransport, if_pos rfl, hval, Option.map_some, haddr, h]
    exact ⟨.transport ⟨trans, le_rfl, Nat.succ_pos 3, le_rfl⟩, next_of_bTransport ht⟩
  | false =>
    let trans : Payload 4 := ⟨.read, a.setWidth 64, zeroBuf, 4, .incomplete⟩
    obtain ⟨t, hset⟩ := Payload.exists_setVal { trans with response := .ok } v le_rfl le_rfl
    have ht : u.bTransport trans = some (t, u') := by
      rw [access_read_val] at h
      rw [bTransport, if_neg (fun hw => by cases hw), haddr, h]
      dsimp only
      rw [hset]
      rfl
    exact ⟨.transport ⟨trans, le_rfl, Nat.succ_pos 3, le_rfl⟩, next_of_bTransport ht⟩

end Uart

section Transport

variable {n : ℕ} {trans x : Payload n}

theorem heard_of_regTransport {σ : Type*} {access : σ → Bool → Word → Word → Option (Word × σ)}
    {s s' : σ} {l : σ → Bool} {k : Bool → Word → Bool}
    (h : regTransport (access s) s trans = some (x, s'))
    (hkeep : ∀ w a val, ¬ k w a → l ((access s w a val).elim s Prod.snd) = l s) :
    (if k (trans.command = .write) (trans.address.setWidth 32) then some (l s') else none).getD
      (l s) = l s' := by
  split
  · rfl
  next hcall =>
    obtain ⟨val, -, hs'⟩ := exists_val_of_regTransport h
    dsimp only at hs'
    rw [hs', hkeep _ _ _ hcall]
    rfl

/-- The step is an input of the machine of the device. -/
theorem evolves_of_next {σ ι ο : Type*} (f : σ → Peripheral) (M : Machine σ ι ο) {s₀ s s' : σ}
    (i : ι) {th : DmaThread} {call : Option Bool} (hsocket : (f s').socket = (f s).socket)
    (hreached : (f s).Reached th → ∃ is, M.run s₀ is = s)
    (hreached' : (∃ is, M.run s₀ is = s') → (f s').Reached th) (hnext : M.next s i = s')
    (hheard : call.getD (f s).irq = (f s').irq) : Evolves th th (f s) ⟨f s', call⟩ :=
  ⟨hsocket, fun hr => hreached' (hnext ▸ exists_run_next (hreached hr) i), hheard⟩

/-- **A transaction is an input of the machine of the device.** -/
theorem evolves_transport (hn : 4 ≤ n) (th : DmaThread) {d d' : Device}
    (h : TlmDevice.transport trans d = some (x, d')) : Evolves th th d.unit d' := by
  obtain ⟨⟨y, u'⟩, hu, hd⟩ := Option.map_eq_some_iff.1 h
  cases hd
  obtain ⟨u, c⟩ := d
  dsimp only at hu ⊢
  cases u with
  | clint c =>
    obtain ⟨⟨z, c'⟩, hc, hz⟩ := Option.map_eq_some_iff.1 hu
    cases hz
    exact evolves_of_next .clint clintMachine (.transport trans hn) rfl id id
      (congrArg Prod.snd (Option.get_of_eq_some _ hc)) rfl
  | plic p =>
    obtain ⟨⟨z, p'⟩, hp, hz⟩ := Option.map_eq_some_iff.1 hu
    cases hz
    by_cases hlen : trans.dataLength = 4
    · have hfits : trans.dataLength.toNat ≤ n := hlen ▸ hn
      exact evolves_of_next .plic plicMachine (.transport trans hfits) rfl id id
        (congrArg Prod.snd (Option.get_of_eq_some _ hp)) rfl
    · rw [Plic.bTransport, if_pos hlen] at hp
      cases hp
      exact ⟨rfl, id, rfl⟩
  | uart u =>
    obtain ⟨⟨z, u'⟩, hu', hz⟩ := Option.map_eq_some_iff.1 hu
    cases hz
    rcases Uart.exists_access_of_bTransport hu' with rfl | ⟨val, v, hacc⟩
    · exact ⟨rfl, id, by split <;> rfl⟩
    · obtain ⟨i, hi⟩ := Uart.exists_next_of_access hacc
      refine evolves_of_next .uart uartMachine i rfl id id hi ?_
      split
      · rfl
      next hcall => exact (Uart.irq_access hacc (by simpa [Peripheral.callsIrq] using hcall)).symm
  | gpio g =>
    obtain ⟨⟨z, g'⟩, hg, hz⟩ := Option.map_eq_some_iff.1 hu
    cases hz
    exact evolves_of_next .gpio gpioMachine (.transport trans hn) rfl id id
      (congrArg Prod.snd (Option.get_of_eq_some _ hg))
      (heard_of_regTransport hg fun _ _ _ hc => g.irq_access (mt decide_eq_true hc))
  | timer t =>
    obtain ⟨⟨z, t'⟩, ht, hz⟩ := Option.map_eq_some_iff.1 hu
    cases hz
    exact evolves_of_next .timer timerMachine (.transport trans hn) rfl id id
      (congrArg Prod.snd (Option.get_of_eq_some _ ht))
      (heard_of_regTransport ht fun _ _ _ hc => t.irq_access (mt decide_eq_true hc))
  | spi s =>
    obtain ⟨⟨z, s'⟩, hs, hz⟩ := Option.map_eq_some_iff.1 hu
    cases hz
    exact evolves_of_next .spi (spiMachine none) ⟨trans, hn⟩ rfl id id
      (congrArg Prod.snd (Option.get_of_eq_some _ hs)) rfl
  | sdCtrl c =>
    obtain ⟨⟨z, c'⟩, hc, hz⟩ := Option.map_eq_some_iff.1 hu
    cases hz
    have hheard := heard_of_regTransport (l := fun c => c.irqCalls.getLastD false)
      (k := fun w a => w ∧ a = 0x10) hc fun _ _ _ hcall =>
        congrArg (List.getLastD · false) (c.irqCalls_access (mt decide_eq_true hcall))
    exact ⟨rfl, id, hheard⟩
  | dma e =>
    obtain ⟨⟨z, e'⟩, he, hz⟩ := Option.map_eq_some_iff.1 hu
    cases hz
    have hnext : dmaMachine.next ⟨e, th⟩ (.transport trans hn) = ⟨e', th⟩ :=
      congrArg (fun e => Dma.mk e th) (congrArg Prod.snd (Option.get_of_eq_some _ he))
    exact ⟨rfl, fun hr => (exists_run_next hr _).imp fun _ h => h.trans hnext,
      heard_of_regTransport he fun _ _ _ hc => e.irq_access (mt decide_eq_true hc)⟩
  | fbCtrl f =>
    obtain ⟨⟨z, f'⟩, hf, hz⟩ := Option.map_eq_some_iff.1 hu
    cases hz
    exact evolves_of_next .fbCtrl fbMachine ⟨trans, hn⟩ rfl id id
      (congrArg Prod.snd (Option.get_of_eq_some _ hf))
      (heard_of_regTransport hf fun _ _ _ hc => f.irq_access (mt decide_eq_true hc))
  | audio o =>
    obtain ⟨⟨z, o'⟩, ho, hz⟩ := Option.map_eq_some_iff.1 hu
    cases hz
    exact evolves_of_next .audio audioMachine ⟨trans, hn⟩ rfl id id
      (congrArg Prod.snd (Option.get_of_eq_some _ ho))
      (heard_of_regTransport ho fun _ _ _ hc => o.irq_access (mt decide_eq_true hc))

end Transport

/-! ### What the devices do by themselves -/

theorem Evolves.refl (th : DmaThread) (u : Peripheral) : Evolves th th u ⟨u, none⟩ :=
  ⟨rfl, id, rfl⟩

theorem evolves_clintTick (th : DmaThread) (u : Peripheral) : Evolves th th u u.clintTick := by
  cases u with
  | clint c => exact ⟨rfl, fun h => exists_run_next h .tick, rfl⟩
  | _ => exact .refl th _

theorem evolves_timerTick (th : DmaThread) (u : Peripheral) : Evolves th th u u.timerTick := by
  cases u with
  | timer t => exact ⟨rfl, fun h => exists_run_next h .tick, rfl⟩
  | _ => exact .refl th _

theorem evolves_pushRx (th : DmaThread) (byte : Byte) (u : Peripheral) :
    Evolves th th u (u.pushRx byte) := by
  cases u with
  | uart u => exact ⟨rfl, fun h => exists_run_next h (.pushRx byte), rfl⟩
  | _ => exact .refl th _

theorem evolves_setInput (th : DmaThread) (pins : Word) (u : Peripheral) :
    Evolves th th u (u.setInput pins) := by
  cases u with
  | gpio g => exact ⟨rfl, fun h => exists_run_next h (.setInput pins), rfl⟩
  | _ => exact .refl th _

theorem evolves_sdStart (th : DmaThread) (u : Peripheral) : Evolves th th u u.sdStart := by
  cases u with
  | sdCtrl c => exact ⟨rfl, id, rfl⟩
  | _ => exact .refl th _

theorem evolves_sdRead (th : DmaThread) (blockAddr : Word) (buf : SdBlock) (u : Peripheral) :
    Evolves th th u (u.sdRead blockAddr buf) := by
  cases u with
  | sdCtrl c =>
    refine ⟨rfl, id, ?_⟩
    have hcalls : (c.readBlock blockAddr buf).2.2.irqCalls = c.irqCalls := by
      unfold SDCtrl.readBlock
      split <;> rfl
    exact congrArg (List.getLastD · false) hcalls.symm
  | _ => exact .refl th _

theorem evolves_sdFinish (th : DmaThread) (ok : Bool) (u : Peripheral) :
    Evolves th th u (u.sdFinish ok) := by
  cases u with
  | sdCtrl c => exact ⟨rfl, id, rfl⟩
  | _ => exact .refl th _

theorem evolves_dmaResume (th : DmaThread) (rresp wresp : TlmResponse) (e : DmaEngine) :
    Evolves th (Dma.resume ⟨e, th⟩ rresp wresp).1.thread (.dma e)
      ((Peripheral.dma e).dmaResume th rresp wresp) := by
  refine ⟨rfl, fun h => exists_run_next h (.resume rresp wresp), ?_⟩
  have hfinish (ok : Bool) {b : Bool} (hb : b) :
      (if b ∧ e.ctrl &&& 2 ≠ 0 then some true else none).getD e.irq =
        (Dma.finish ⟨e, th⟩ ok).engine.irq := by
    unfold Dma.finish
    by_cases h : e.ctrl &&& 2 ≠ 0
    · rw [if_pos ⟨hb, h⟩, if_pos h]
      rfl
    · rw [if_neg fun hc => h hc.2, if_neg h]
      rfl
  unfold Peripheral.dmaResume Dma.resume
  cases th with
  | waiting =>
    dsimp only
    split <;> rfl
  | copying remaining src dst =>
    dsimp only
    have hcopying : DmaThread.copying remaining src dst ≠ .waiting := DmaThread.noConfusion
    split
    · split
      · exact hfinish false (decide_eq_true ⟨hcopying, rfl⟩)
      · split
        · exact hfinish false (decide_eq_true ⟨hcopying, rfl⟩)
        · rfl
    · exact hfinish true (decide_eq_true ⟨hcopying, rfl⟩)

/-! ### The calls of `on_irq` reach the PLIC -/

section Hear

variable {th : DmaThread} (targets : ℕ → Target Device)

theorem evolves_setPending (sourceId : Word) (v : Bool) (u : Peripheral) :
    Evolves th th u ⟨u.setPending sourceId v, none⟩ := by
  cases u with
  | plic p => exact ⟨rfl, fun h => exists_run_next h (.setPending sourceId v), rfl⟩
  | _ => exact .refl th _

theorem Evolves.trans_none {u u' u'' : Peripheral} (h : Evolves th th u ⟨u', none⟩)
    (h' : Evolves th th u' ⟨u'', none⟩) : Evolves th th u ⟨u'', none⟩ :=
  ⟨h'.socket.trans h.socket, h'.reached ∘ h.reached, h.heard.trans h'.heard⟩

theorem evolves_hearWire (u : Peripheral) (l : ℕ × Word) :
    Evolves th th u ⟨u.hearWire targets l, none⟩ := by
  unfold Peripheral.hearWire
  cases (targets l.1).call with
  | none => exact .refl th u
  | some v => exact evolves_setPending l.2 v u

theorem evolves_hear (u : Peripheral) : Evolves th th u ⟨u.hear targets, none⟩ := by
  unfold Peripheral.hear
  induction irqWires generalizing u with
  | nil => exact .refl th u
  | cons l wires ih => exact (evolves_hearWire targets u l).trans_none (ih _)

theorem hear_of_ne {u : Peripheral} (h : u.socket ≠ 3) : u.hear targets = u := by
  have hwire (l : ℕ × Word) : u.hearWire targets l = u := by
    unfold Peripheral.hearWire
    cases (targets l.1).call with
    | none => rfl
    | some v =>
      cases u with
      | plic p => exact absurd rfl h
      | _ => rfl
  unfold Peripheral.hear
  induction irqWires with
  | nil => rfl
  | cons l wires ih => rw [List.foldl_cons, hwire, ih]

/-- The sources of the wires are sources of the PLIC, and no two are the same. -/
theorem irqWires_sources : (∀ l ∈ irqWires, ∃ i : Source, i ≠ 0 ∧ i.1 = l.2.toNat) ∧
    irqWires.Pairwise fun l l' => l.2.toNat ≠ l'.2.toNat := by
  decide

/-- What the PLIC has heard: at each wire the call, if there is one. -/
theorem exists_hear_plic (p : Plic) : ∃ p', (Peripheral.plic p).hear targets = .plic p' ∧
    ∀ l ∈ irqWires, p'.pending.getLsbD l.2.toNat =
      (targets l.1).call.getD (p.pending.getLsbD l.2.toNat) := by
  -- a wire changes the bit of its source only
  have hwire (p : Plic) (l : ℕ × Word) : ∃ p', (Peripheral.plic p).hearWire targets l = .plic p' ∧
      ∀ i : Source, i ≠ 0 → p'.pending.getLsbD i =
        if l.2.toNat = i then (targets l.1).call.getD (p.pending.getLsbD i)
          else p.pending.getLsbD i := by
    unfold Peripheral.hearWire
    cases (targets l.1).call with
    | none => exact ⟨p, rfl, fun i _ => (ite_self _).symm⟩
    | some v => exact ⟨p.setPending l.2 v, rfl, fun i hi => Plic.getLsbD_setPending hi p l.2 v⟩
  obtain ⟨hsource, hdistinct⟩ := irqWires_sources
  unfold Peripheral.hear
  generalize irqWires = wires at hsource hdistinct ⊢
  suffices h : ∃ p', wires.foldl (Peripheral.hearWire targets) (.plic p) = .plic p' ∧
      (∀ l ∈ wires, p'.pending.getLsbD l.2.toNat =
        (targets l.1).call.getD (p.pending.getLsbD l.2.toNat)) ∧
      ∀ i : Source, i ≠ 0 → (∀ l ∈ wires, l.2.toNat ≠ i) →
        p'.pending.getLsbD i = p.pending.getLsbD i from
    h.imp fun _ h => ⟨h.1, h.2.1⟩
  induction wires generalizing p with
  | nil => exact ⟨p, rfl, nofun, fun _ _ _ => rfl⟩
  | cons l wires ih =>
    obtain ⟨hne, hdistinct⟩ := List.pairwise_cons.1 hdistinct
    obtain ⟨p₁, hp₁, hbit⟩ := hwire p l
    obtain ⟨p', hp', hheard, hrest⟩ :=
      ih p₁ (fun l' hl' => hsource l' (List.mem_cons_of_mem l hl')) hdistinct
    refine ⟨p', by rw [List.foldl_cons, hp₁, hp'], fun l' hl' => ?_, fun i hi hi' => ?_⟩
    · obtain ⟨i, hi, hi'⟩ := hsource l' hl'
      rcases List.mem_cons.1 hl' with rfl | hmem
      · rw [← hi', hrest i hi (fun k hk => hi'.symm ▸ (hne k hk).symm), hbit i hi, if_pos hi'.symm]
      · rw [hheard l' hmem, ← hi', hbit i hi, if_neg (hi' ▸ hne l' hmem)]
    · rw [hrest i hi fun k hk => hi' k (List.mem_cons_of_mem l hk), hbit i hi,
        if_neg (hi' l List.mem_cons_self)]

end Hear

end VirtualSoC
