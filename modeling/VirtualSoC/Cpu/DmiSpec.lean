import VirtualSoC.Cpu.BusPort
import VirtualSoC.Cpu.BusRel

/-!
# The DMI fast path

`BusPort.Granted` : the window that the ISS caches is one that the bus grants.  It holds in every
state of a run (`granted_run`), since no transaction changes what a target grants; so the fast path
agrees with the transport in every run (`fastPath_agrees_run`).

`fastPath_agrees_iff` says when the fast path over a window of a memory agrees with the transport
to that memory.  The guard computes the last address in 32 bits, so it lets accesses through that
run past the end of the address space, and a memory without bytes grants a window of 4 GiB.
-/

namespace VirtualSoC

variable {δ : Type}

namespace BusPort

/-- The DMI members hold the grant `x`. -/
structure Holds (w : BusPort δ) (x : ℕ × TlmDmi) : Prop where
  valid : w.dmiValid
  ptr : w.dmiPtr = some x.1
  start : w.dmiStart = x.2.startAddress
  finish : w.dmiEnd = x.2.endAddress

/-- The cached window is the one that the bus grants for the address `a`. -/
def Granted (bus : TlmBus) (w : BusPort δ) (a : Word) : Prop :=
  ∃ x, bus.getDirectMemPtr w.targets a = some x ∧ w.Holds x

/-- A valid window has been granted. -/
def WindowGranted (bus : TlmBus) (w : BusPort δ) : Prop :=
  w.dmiValid → ∃ a, w.Granted bus a

end BusPort

/-! ### Windows over runs -/

/-- The targets grant the same. -/
def SameGrants (targets targets' : ℕ → Target δ) : Prop :=
  ∀ i, (targets' i).getDirectMemPtr = (targets i).getDirectMemPtr

theorem SameGrants.update {targets : ℕ → Target δ} {i : ℕ} {t : Target δ}
    (h : t.getDirectMemPtr = (targets i).getDirectMemPtr) :
    SameGrants targets (Function.update targets i t) := by
  intro j
  by_cases hj : j = i
  · subst hj
    rw [Function.update_self, h]
  · rw [Function.update_of_ne hj]

theorem SameGrants.getDirectMemPtr {bus : TlmBus} {targets targets' : ℕ → Target δ}
    (h : SameGrants targets targets') (a : Word) :
    bus.getDirectMemPtr targets' a = bus.getDirectMemPtr targets a := by
  unfold TlmBus.getDirectMemPtr
  cases bus.decode a with
  | none => rfl
  | some r =>
    dsimp only
    rw [h]

section

variable [TlmDevice δ] {bus : TlmBus} {targets targets' : ℕ → Target δ}

theorem sameGrants_bTransport {n : ℕ} {trans trans' : Payload n}
    (h : bus.bTransport targets trans = some (trans', targets')) :
    SameGrants targets targets' := by
  unfold TlmBus.bTransport at h
  split at h
  · cases h
    exact fun _ => rfl
  · obtain ⟨⟨x, t⟩, ht, hx⟩ := Option.bind_eq_some_iff.1 h
    cases hx
    exact .update (Target.getDirectMemPtr_of_bTransport ht)

end

namespace BusPort

variable {bus : TlmBus} {w : BusPort δ}

theorem windowGranted_tryDmi (h : w.WindowGranted bus) (a : Word) :
    (w.tryDmi bus a).WindowGranted bus := by
  unfold tryDmi
  cases hg : bus.getDirectMemPtr w.targets a with
  | none => exact h
  | some x => exact fun _ => ⟨a, x, hg, rfl, rfl, rfl, rfl⟩

theorem windowGranted_dropDmi : w.dropDmi.WindowGranted bus := nofun

theorem windowGranted_invalidateDmi (h : w.WindowGranted bus) (start finish : BitVec 64) :
    (w.invalidateDmi start finish).WindowGranted bus := by
  unfold invalidateDmi
  split
  · exact windowGranted_dropDmi
  · exact h

/-- A change of the targets that keeps their grants keeps the window. -/
theorem WindowGranted.targets {targets : ℕ → Target δ} (h : w.WindowGranted bus)
    (hs : SameGrants w.targets targets) : { w with targets }.WindowGranted bus := by
  intro hv
  obtain ⟨a, x, hg, hx⟩ := h hv
  exact ⟨a, x, (hs.getDirectMemPtr a).trans hg, hx.valid, hx.ptr, hx.start, hx.finish⟩

variable [TlmDevice δ]

theorem windowGranted_busRead (h : w.WindowGranted bus) {a v : Word} {n : ℕ} {w' : BusPort δ}
    (hr : w.busRead bus a n = some (v, w')) : w'.WindowGranted bus := by
  unfold busRead at hr
  split at hr
  · obtain ⟨i, -, hr⟩ := Option.bind_eq_some_iff.1 hr
    obtain ⟨x, -, hr⟩ := Option.bind_eq_some_iff.1 hr
    cases hr
    exact h
  · obtain ⟨x, hx, hr⟩ := Option.bind_eq_some_iff.1 hr
    obtain ⟨y, -, hr⟩ := Option.bind_eq_some_iff.1 hr
    cases hr
    have ht := h.targets (sameGrants_bTransport hx)
    split
    · exact ht
    · exact windowGranted_tryDmi ht a

theorem windowGranted_busWrite (h : w.WindowGranted bus) {a v : Word} {n : ℕ} {w' : BusPort δ}
    (hr : w.busWrite bus a v n = some w') : w'.WindowGranted bus := by
  unfold busWrite at hr
  split at hr
  · obtain ⟨i, -, hr⟩ := Option.bind_eq_some_iff.1 hr
    obtain ⟨t, ht, hr⟩ := Option.bind_eq_some_iff.1 hr
    cases hr
    exact h.targets (.update (Target.getDirectMemPtr_of_hostWrite ht))
  · obtain ⟨x, -, hr⟩ := Option.bind_eq_some_iff.1 hr
    obtain ⟨y, hy, hr⟩ := Option.bind_eq_some_iff.1 hr
    cases hr
    exact h.targets (sameGrants_bTransport hy)

/-- The bus port, until a host access is out of bounds. -/
def Sound (bus : TlmBus) (w : Option (BusPort δ)) : Prop := ∀ w' ∈ w, w'.WindowGranted bus

theorem socBus_keeps_sound : (socBus bus).Keeps (Sound (δ := δ) bus) where
  read := by
    intro b h a n w' hw
    obtain ⟨w, rfl, v, hw⟩ := (socBus_read_eq_some bus).1 hw
    exact windowGranted_busRead (h w rfl) hw
  write := by
    intro b h a v n w' hw
    obtain ⟨w, rfl, hw⟩ := Option.bind_eq_some_iff.1 hw
    exact windowGranted_busWrite (h w rfl) hw
  dropDmi := by
    intro b h w' hw
    obtain ⟨w, rfl, rfl⟩ := Option.map_eq_some_iff.1 hw
    exact windowGranted_dropDmi

theorem windowGranted_elsewhere (h : w.WindowGranted bus) (o : Elsewhere δ) {w' : BusPort δ}
    (hw : o.apply bus w = some w') : w'.WindowGranted bus := by
  cases o with
  | transport payload =>
    obtain ⟨x, hx, hw⟩ := Option.bind_eq_some_iff.1 hw
    cases hw
    exact h.targets (sameGrants_bTransport hx)
  | device i f =>
    cases hw
    refine h.targets (.update ?_)
    cases w.targets i <;> rfl
  | invalidate id start finish =>
    cases hw
    unfold TlmBus.invalidateDirectMemPtr
    split
    · exact h
    · exact windowGranted_invalidateDmi h _ _

/-- **In every run, a valid DMI window is one that the bus grants.** -/
theorem granted_run {iss : ISS (Option (BusPort δ))} (h : Sound bus iss.env.bus)
    {is : List (Input (Option (BusPort δ)))}
    (hw : ∀ f, .world f ∈ is → FromElsewhere bus f) :
    Sound bus ((issMachine (socBus bus)).run iss is).env.bus := by
  refine socBus_keeps_sound.run h fun f hf b hb w' hw' => ?_
  obtain ⟨o, rfl⟩ := hw f hf
  obtain ⟨w, rfl, hw'⟩ := Option.bind_eq_some_iff.1 hw'
  exact windowGranted_elsewhere (hb w rfl) o hw'

end BusPort

/-! ### Agreement with the transport -/

section

variable [TlmDevice δ]

/-- The fast path stays in the window, and does what the transport to the target of the range `r`
does. -/
structure FastPathAgrees (bus : TlmBus) (r : MappedRange) (w : BusPort δ) (addr : Word)
    (bytes : ℕ) : Prop where
  inside : ∀ k < bytes, w.dmiStart.toNat ≤ addr.toNat + k ∧ addr.toNat + k ≤ w.dmiEnd.toNat
  read : ∃ x v, TlmBus.forward w.targets r (readTrans addr bytes) = some x ∧
    Buffer.copy zeroBuf 0 x.1.data 0 bytes = some v ∧
    w.busRead bus addr bytes = some (Bytes.ofLE v, { w with targets := x.2 })
  write : ∀ data, ∃ trans x, writeTrans addr data bytes = some trans ∧
    TlmBus.forward w.targets r trans = some x ∧
    w.busWrite bus addr data bytes = some { w with targets := x.2 }

variable {bus : TlmBus} {r : MappedRange} {w : BusPort δ} {m : Memory} {a : Word}

omit [TlmDevice δ] in
theorem BusPort.Granted.memory (hg : w.Granted bus a) (hd : bus.decode a = some r)
    (ht : w.targets r.targetIdx = .memory m) :
    w.dmiValid ∧ w.dmiPtr = some r.targetIdx ∧ w.dmiStart.toNat = r.base.toNat ∧
      w.dmiEnd.toNat = r.base.toNat + (m.size - 1).toNat := by
  obtain ⟨x, hx, h⟩ := hg
  simp only [TlmBus.getDirectMemPtr, hd, ht, Target.getDirectMemPtr, Memory.getDirectMemPtr,
    Option.map_some, Option.some.injEq] at hx
  subst hx
  refine ⟨h.valid, h.ptr, ?_, ?_⟩
  · rw [h.start]
    simp only [BitVec.ofNat_eq_ofNat, BitVec.zero_add, BitVec.toNat_setWidth]
    omega
  · rw [h.finish]
    simp only [BitVec.toNat_add, BitVec.toNat_setWidth]
    omega

theorem toNat_ofNat_bytes {bytes : ℕ} (h4 : bytes ≤ 4) :
    (BitVec.ofNat 32 bytes).toNat = bytes := by
  rw [BitVec.toNat_ofNat]
  omega

theorem toNat_sub_one {x : Word} (h : 0 < x.toNat) : (x - 1).toNat = x.toNat - 1 := by
  have hone : (1 : Word).toNat = 1 := rfl
  rw [BitVec.toNat_sub, hone]
  omega

theorem setWidth_setWidth_word (x : Word) : ((x.setWidth 64).setWidth 32 : Word) = x :=
  BitVec.setWidth_setWidth_of_le x (by decide)

section

variable (ht : w.targets r.targetIdx = .memory m) {addr : Word} {bytes : ℕ} (h4 : bytes ≤ 4)
  (h : (addr - r.base).toNat + bytes ≤ m.size.toNat)

include ht h4 h

theorem forward_readTrans {v : Vector Byte 4}
    (hv : Buffer.copy zeroBuf 0 m.mem (addr - r.base).toNat bytes = some v) :
    ∃ x, TlmBus.forward w.targets r (readTrans addr bytes) = some x ∧
      x.1.data = v ∧ x.2 = w.targets := by
  have hlen := toNat_ofNat_bytes h4
  have hm := m.bTransport_read { readTrans addr bytes with
    address := (addr - r.base).setWidth 64 } rfl
    (by simpa [readTrans, hlen, setWidth_setWidth_word] using h)
  simp only [readTrans, hlen, setWidth_setWidth_word, hv, Option.map_some] at hm
  rw [TlmBus.forward_memory ht]
  simp only [readTrans, setWidth_setWidth_word, hm, Option.map_some]
  refine ⟨_, rfl, rfl, ?_⟩
  rw [← ht]
  exact Function.update_eq_self ..

theorem forward_writeTrans {data : Word} {buf : Vector Byte 4} {mem : Vector Byte m.size.toNat}
    (hbuf : Buffer.copy zeroBuf 0 (Bytes.toLE data 4) 0 bytes = some buf)
    (hv : Buffer.copy m.mem (addr - r.base).toNat (Bytes.toLE data 4) 0 bytes = some mem) :
    ∃ trans x, writeTrans addr data bytes = some trans ∧
      TlmBus.forward w.targets r trans = some x ∧
      x.2 = Function.update w.targets r.targetIdx (.memory { m with mem }) := by
  have hlen := toNat_ofNat_bytes h4
  have htrans : writeTrans addr data bytes =
      some ⟨.write, addr.setWidth 64, buf, BitVec.ofNat 32 bytes, .incomplete⟩ := by
    rw [writeTrans, hbuf]
    rfl
  have hm := m.bTransport_write (n := 4) ⟨.write, (addr - r.base).setWidth 64, buf,
    BitVec.ofNat 32 bytes, .incomplete⟩ rfl
    (by simpa [hlen, setWidth_setWidth_word] using h)
  simp only [hlen, setWidth_setWidth_word, Buffer.copy_copy hbuf, hv, Option.map_some] at hm
  have hf := TlmBus.forward_memory ht (n := 4)
    ⟨.write, addr.setWidth 64, buf, BitVec.ofNat 32 bytes, .incomplete⟩
  simp only [setWidth_setWidth_word, hm, Option.map_some] at hf
  exact ⟨_, _, htrans, hf, rfl⟩

end

omit [TlmDevice δ] in
theorem dmiHit_iff (hg : w.Granted bus a) (hd : bus.decode a = some r)
    (ht : w.targets r.targetIdx = .memory m) {addr : Word} {bytes : ℕ} (h0 : 0 < bytes)
    (h4 : bytes ≤ 4) :
    w.dmiHit addr bytes ↔ r.base.toNat ≤ addr.toNat ∧
      (addr.toNat + bytes - 1) % 2 ^ 32 ≤ r.base.toNat + (m.size - 1).toNat := by
  obtain ⟨hv, -, hs, he⟩ := hg.memory hd ht
  have hlast : ((addr + BitVec.ofNat 32 bytes - 1).setWidth 64).toNat =
      (addr.toNat + bytes - 1) % 2 ^ 32 := by
    have hlen := toNat_ofNat_bytes h4
    have hone : (1 : Word).toNat = 1 := rfl
    simp only [BitVec.toNat_setWidth, BitVec.toNat_sub, BitVec.toNat_add, hlen, hone]
    omega
  have haddr : (addr.setWidth 64).toNat = addr.toNat := by
    rw [BitVec.toNat_setWidth]
    omega
  simp only [BusPort.dmiHit, hv, true_and, decide_eq_true_eq, ge_iff_le, BitVec.le_def, hs, he,
    hlast, haddr]

omit [TlmDevice δ] in
theorem dmiOffset_eq (hg : w.Granted bus a) (hd : bus.decode a = some r)
    (ht : w.targets r.targetIdx = .memory m) {addr : Word} (hle : r.base.toNat ≤ addr.toNat) :
    w.dmiOffset addr = addr.toNat - r.base.toNat ∧
      (addr - r.base).toNat = addr.toNat - r.base.toNat := by
  obtain ⟨-, -, hs, -⟩ := hg.memory hd ht
  unfold BusPort.dmiOffset
  rw [BitVec.toNat_sub, BitVec.toNat_sub, hs, BitVec.toNat_setWidth]
  omega

section

variable (hg : w.Granted bus a) (hd : bus.decode a = some r)
  (ht : w.targets r.targetIdx = .memory m) {addr : Word} {bytes : ℕ}
  (hit : w.dmiHit addr bytes) (hle : r.base.toNat ≤ addr.toNat)

include hg hd ht hit hle

/-- A read of the fast path that is defined stays inside the memory. -/
theorem inside_of_busRead {x : Word × BusPort δ} (hr : w.busRead bus addr bytes = some x) :
    addr.toNat + bytes ≤ r.base.toNat + m.size.toNat := by
  obtain ⟨-, hp, -, -⟩ := hg.memory hd ht
  obtain ⟨hoff, -⟩ := dmiOffset_eq hg hd ht hle
  by_contra hout
  have hnone : Buffer.copy zeroBuf 0 m.mem (addr.toNat - r.base.toNat) bytes = none :=
    Buffer.copy_eq_none_iff.2 (.inl (by omega))
  simp [BusPort.busRead, hit, hp, ht, Target.hostRead, hoff, hnone] at hr

/-- Inside the memory, the fast path agrees with the transport. -/
theorem fastPathAgrees_of_inside (hpos : 0 < m.size.toNat) (h4 : bytes ≤ 4)
    (hin : addr.toNat + bytes ≤ r.base.toNat + m.size.toNat) :
    FastPathAgrees bus r w addr bytes := by
  obtain ⟨-, hp, hs, he⟩ := hg.memory hd ht
  obtain ⟨hoff, hloc⟩ := dmiOffset_eq hg hd ht hle
  have hsize := toNat_sub_one hpos
  have hlen : (addr - r.base).toNat + bytes ≤ m.size.toNat := by omega
  refine ⟨fun k hk => by omega, ?_, fun data => ?_⟩
  · obtain ⟨v, hv⟩ := Buffer.exists_copy zeroBuf m.mem (show 0 + bytes ≤ 4 by omega) hlen
    obtain ⟨x, hf, hxd, hxt⟩ := forward_readTrans ht h4 hlen hv
    refine ⟨x, v, hf, ?_, ?_⟩
    · rw [hxd, Buffer.copy_copy hv]
      exact hv
    · rw [hloc] at hv
      rw [hxt]
      change w.busRead bus addr bytes = some (_, w)
      simp [BusPort.busRead, hit, hp, ht, Target.hostRead, hoff, hv]
  · obtain ⟨buf, hbuf⟩ := Buffer.exists_copy zeroBuf (Bytes.toLE data 4)
      (show 0 + bytes ≤ 4 by omega) (show 0 + bytes ≤ 4 by omega)
    obtain ⟨mem, hv⟩ := Buffer.exists_copy m.mem (Bytes.toLE data 4) hlen
      (show 0 + bytes ≤ 4 by omega)
    obtain ⟨trans, x, htr, hf, hxt⟩ := forward_writeTrans ht h4 hlen hbuf hv
    refine ⟨trans, x, htr, hf, ?_⟩
    rw [hloc] at hv
    simp [BusPort.busWrite, hit, hp, ht, Target.hostWrite, hoff, hv, hxt]

end

omit [TlmDevice δ] in
/-- An access that stays in the address space stays in the memory. -/
theorem inside_of_dmiHit (hg : w.Granted bus a) (hd : bus.decode a = some r)
    (ht : w.targets r.targetIdx = .memory m) {addr : Word} {bytes : ℕ} (h0 : 0 < bytes)
    (h4 : bytes ≤ 4) (hit : w.dmiHit addr bytes) (hpos : 0 < m.size.toNat)
    (hend : addr.toNat + bytes ≤ 2 ^ 32) : addr.toNat + bytes ≤ r.base.toNat + m.size.toNat := by
  obtain ⟨-, hlast⟩ := (dmiHit_iff hg hd ht h0 h4).1 hit
  have hsize := toNat_sub_one hpos
  rw [Nat.mod_eq_of_lt (by omega)] at hlast
  omega

/-- **The fast path over a window of a memory agrees with the transport exactly when** the memory is
not empty and the access does not leave the window past the end of the address space. -/
theorem fastPath_agrees_iff (hg : w.Granted bus a) (hd : bus.decode a = some r)
    (ht : w.targets r.targetIdx = .memory m) (addr : Word) {bytes : ℕ}
    (hb : bytes = 1 ∨ bytes = 2 ∨ bytes = 4) :
    (w.dmiHit addr bytes → FastPathAgrees bus r w addr bytes) ↔
      (w.dmiHit addr bytes → 0 < m.size ∧
        (addr.toNat + bytes ≤ 2 ^ 32 ∨
          addr.toNat + bytes ≤ r.base.toNat + m.size.toNat)) := by
  refine forall_congr' fun hit => ?_
  have h4 : bytes ≤ 4 := by omega
  have h0 : 0 < bytes := by omega
  obtain ⟨hle, -⟩ := (dmiHit_iff hg hd ht h0 h4).1 hit
  constructor
  · intro hagree
    obtain ⟨x, v, -, -, hr⟩ := hagree.read
    have hin := inside_of_busRead hg hd ht hit hle hr
    have hpos : 0 < m.size.toNat := by omega
    exact ⟨BitVec.lt_def.2 hpos, .inr hin⟩
  · rintro ⟨hpos, hend⟩
    have hin := hend.elim (inside_of_dmiHit hg hd ht h0 h4 hit (BitVec.lt_def.1 hpos)) id
    exact fastPathAgrees_of_inside hg hd ht hit hle (BitVec.lt_def.1 hpos) h4 hin

end

/-- **In every run the fast path over a memory agrees with the transport**: whatever the other
masters and the devices do between the iterations, a window that the CPU has is granted, and an
access through it that stays in the address space does what the transaction would do. -/
theorem fastPath_agrees_run [TlmDevice δ] {bus : TlmBus} {iss : ISS (Option (BusPort δ))}
    (h : BusPort.Sound bus iss.env.bus) {is : List (Input (Option (BusPort δ)))}
    (hworld : ∀ f, .world f ∈ is → FromElsewhere bus f) :
    ∀ w ∈ ((issMachine (socBus bus)).run iss is).env.bus, w.dmiValid →
      ∃ a r, w.Granted bus a ∧ bus.decode a = some r ∧ ∀ m, w.targets r.targetIdx = .memory m →
        0 < m.size → ∀ (addr : Word) (bytes : ℕ), bytes = 1 ∨ bytes = 2 ∨ bytes = 4 →
          w.dmiHit addr bytes → addr.toNat + bytes ≤ 2 ^ 32 →
            FastPathAgrees bus r w addr bytes := by
  intro w hw hvalid
  obtain ⟨a, hg⟩ := BusPort.granted_run h hworld w hw hvalid
  have hdecode : ∃ r, bus.decode a = some r := by
    obtain ⟨x, hx, -⟩ := hg
    unfold TlmBus.getDirectMemPtr at hx
    split at hx
    · cases hx
    next r hr => exact ⟨r, hr⟩
  obtain ⟨r, hd⟩ := hdecode
  refine ⟨a, r, hg, hd, fun m ht hpos addr bytes hb hit hend => ?_⟩
  have h4 : bytes ≤ 4 := by omega
  have h0 : 0 < bytes := by omega
  obtain ⟨hle, -⟩ := (dmiHit_iff hg hd ht h0 h4).1 hit
  have hpos := BitVec.lt_def.1 hpos
  exact fastPathAgrees_of_inside hg hd ht hit hle hpos h4
    (inside_of_dmiHit hg hd ht h0 h4 hit hpos hend)

/-! The RAM of the platform, alone behind the bus, with its window cached. -/

/-- A bus port without devices. -/
instance : TlmDevice Empty where
  transport _ d := d.elim

/-- The range of the RAM. -/
def ramBus : TlmBus := ⟨[⟨0x80000000, 0x08000000, 0⟩]⟩

/-- The port after a grant of the RAM. -/
def ramPort : BusPort Empty :=
  BusPort.tryDmi
    { targets := fun _ => .memory { size := 0x08000000, mem := .replicate _ 0 } } ramBus 0x80000000

theorem ramPort_granted : ramPort.Granted ramBus 0x80000000 :=
  ⟨_, rfl, rfl, rfl, rfl, rfl⟩

theorem fastPath_agrees_iff_ram :
    ramPort.dmiHit 0x80000100 4 ∧ FastPathAgrees ramBus ⟨0x80000000, 0x08000000, 0⟩ ramPort
      0x80000100 4 :=
  ⟨by decide, (fastPath_agrees_iff ramPort_granted rfl rfl 0x80000100 (.inr (.inr rfl))).2
    (fun _ => by decide) (by decide)⟩

/-- A fetch at the last halfword of the address space reads past the RAM. -/
theorem not_fastPath_agrees_wrapped :
    ramPort.Granted ramBus 0x80000000 ∧ ramPort.dmiHit 0xFFFFFFFE 4 ∧
      ramPort.busRead ramBus 0xFFFFFFFE 4 = none ∧
      ¬ FastPathAgrees ramBus ⟨0x80000000, 0x08000000, 0⟩ ramPort 0xFFFFFFFE 4 := by
  have hit : ramPort.dmiHit 0xFFFFFFFE 4 := by decide
  have hout : (ramPort.targets 0).hostRead zeroBuf (ramPort.dmiOffset 0xFFFFFFFE) 4 = none :=
    Buffer.copy_eq_none_iff.2 (.inl (by decide))
  refine ⟨ramPort_granted, hit, ?_, fun h => ?_⟩
  · rw [BusPort.busRead, if_pos hit]
    change Option.bind (some 0) _ = none
    rw [Option.bind_some, hout]
    rfl
  · exact absurd (h.inside 2 (by decide)).2 (by decide)

/-- The size of the memory that is bound here. -/
def Target.memorySize : Target δ → Option Word
  | .memory m => some m.size
  | _ => none

theorem Target.exists_memory {t : Target δ} {n : Word} (h : t.memorySize = some n) :
    ∃ m : Memory, t = .memory m ∧ m.size = n := by
  cases t with
  | memory m => exact ⟨m, rfl, Option.some.inj h⟩
  | bootRom | device => cases h

/-- A hart at the start of a RAM of `c.addi x2, 0` parcels. -/
def ramHart : ISS (Option (BusPort Empty)) where
  state := { pc := 0x80000000 }
  env := { bus := some { targets := fun _ => .memory ⟨0x08000000, .replicate _ 1⟩ } }

/-- Another master writes a word. -/
def otherWrite : Elsewhere Empty :=
  .transport (n := 4) ⟨.write, 0x80000100, zeroBuf, 4, .incomplete⟩

/-- The fetch caches the window, another master writes, and a load goes through the window. -/
theorem fastPath_agrees_run_fetch :
    ∃ w, ((issMachine (socBus ramBus)).run ramHart
        [.cycle fun _ => 0, .world fun b => b.bind fun w => otherWrite.apply ramBus w]).env.bus =
          some w ∧
      w.dmiHit 0x80000100 4 ∧ ∃ r, FastPathAgrees ramBus r w 0x80000100 4 := by
  have hall : (((issMachine (socBus ramBus)).run ramHart
      [.cycle fun _ => 0, .world fun b => b.bind fun w => otherWrite.apply ramBus w]).env.bus.any
        fun w => w.dmiHit 0x80000100 4 ∧ (w.targets 0).memorySize = some 0x08000000) = true := by
    decide +kernel
  obtain ⟨w, hw, hall⟩ := Option.any_eq_true _ _ |>.1 hall
  obtain ⟨hit, hsize⟩ := of_decide_eq_true hall
  obtain ⟨m, ht, hm⟩ := Target.exists_memory hsize
  have hsound : BusPort.Sound ramBus ramHart.env.bus := by
    rintro _ ⟨⟩ hvalid
    cases hvalid
  obtain ⟨a, r, -, hd, hagree⟩ := fastPath_agrees_run hsound (by
    intro f hf
    rcases List.mem_cons.1 hf with hf | hf
    · cases hf
    · cases List.mem_singleton.1 hf
      exact ⟨otherWrite, rfl⟩) w hw (of_decide_eq_true hit).1
  have hr : r.targetIdx = 0 := by
    have hmem := List.mem_of_find?_eq_some hd
    rw [List.mem_singleton.1 hmem]
  exact ⟨w, hw, hit, r, hagree m (hr ▸ ht) (by rw [hm]; decide) 0x80000100 4 (.inr (.inr rfl)) hit
    (by decide)⟩

end VirtualSoC
