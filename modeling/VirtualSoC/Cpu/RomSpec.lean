import VirtualSoC.Cpu.BusPort
import VirtualSoC.Cpu.BusRel
import VirtualSoC.Platform.GamingCpuVp

/-!
# The boot ROM

The transport of the boot ROM rejects writes and its DMI grant is for reading, but the bus port
uses whatever window it holds for writes as well.  `rom_kept_run` : a boot ROM keeps its bytes in
every run in which no write of the CPU hits a window of a boot ROM.
-/

namespace VirtualSoC

variable {δ : Type}

/-- The boot ROMs among `targets` are there, unchanged, among `targets'`. -/
def RomsKept (targets targets' : ℕ → Target δ) : Prop :=
  ∀ i m, targets i = .bootRom m → targets' i = .bootRom m

namespace RomsKept

variable {t₁ t₂ t₃ : ℕ → Target δ}

theorem refl (t : ℕ → Target δ) : RomsKept t t := fun _ _ h => h

theorem trans (h : RomsKept t₁ t₂) (h' : RomsKept t₂ t₃) : RomsKept t₁ t₃ :=
  fun i m hi => h' i m (h i m hi)

theorem update {i : ℕ} {t : Target δ} (h : ∀ m, t₁ i = .bootRom m → t = .bootRom m) :
    RomsKept t₁ (Function.update t₁ i t) := by
  intro j m hj
  by_cases hji : j = i
  · subst hji
    rw [Function.update_self]
    exact h m hj
  · rwa [Function.update_of_ne hji]

end RomsKept

/-- The target is a boot ROM. -/
def Target.isBootRom : Target δ → Bool
  | .bootRom _ => true
  | _ => false

/-- The access hits a DMI window of a boot ROM. -/
def BusPort.hitsRom (w : BusPort δ) (addr : Word) (bytes : ℕ) : Bool :=
  w.dmiHit addr bytes && w.dmiPtr.any fun i => (w.targets i).isBootRom

/-- A write that hits a DMI window of a boot ROM, in the world that it finds. -/
def BusOp.writesRom (op : BusOp) (w : Option (BusPort δ)) : Bool :=
  match op with
  | .write addr _ bytes => w.any fun w => w.hitsRom addr bytes
  | _ => false

/-! ### What keeps the boot ROMs -/

section

variable [TlmDevice δ] {bus : TlmBus} {w w' : BusPort δ}

theorem romsKept_bTransport {n : ℕ} {targets targets' : ℕ → Target δ} {trans trans' : Payload n}
    (h : bus.bTransport targets trans = some (trans', targets')) : RomsKept targets targets' := by
  unfold TlmBus.bTransport at h
  split at h
  · cases h
    exact .refl _
  next r _ =>
    obtain ⟨⟨x, t⟩, ht, hx⟩ := Option.bind_eq_some_iff.1 h
    cases hx
    refine .update fun m hm => ?_
    rw [hm] at ht
    simp only [Target.bTransport, Option.map_eq_some_iff] at ht
    obtain ⟨⟨y, m'⟩, hm', hy⟩ := ht
    cases hy
    rw [BootRom.eq_of_bTransport hm']

omit [TlmDevice δ] in
theorem BusPort.tryDmi_targets (w : BusPort δ) (bus : TlmBus) (a : Word) :
    (w.tryDmi bus a).targets = w.targets := by
  unfold tryDmi
  split
  · rfl
  · rfl

theorem romsKept_busRead {a v : Word} {n : ℕ} (h : w.busRead bus a n = some (v, w')) :
    RomsKept w.targets w'.targets := by
  unfold BusPort.busRead at h
  split at h
  · obtain ⟨i, -, h⟩ := Option.bind_eq_some_iff.1 h
    obtain ⟨x, -, h⟩ := Option.bind_eq_some_iff.1 h
    cases h
    exact .refl _
  · obtain ⟨x, hx, h⟩ := Option.bind_eq_some_iff.1 h
    obtain ⟨y, -, h⟩ := Option.bind_eq_some_iff.1 h
    cases h
    have hk := romsKept_bTransport hx
    split
    · exact hk
    · rwa [BusPort.tryDmi_targets]

theorem romsKept_busWrite {a v : Word} {n : ℕ} (hr : w.hitsRom a n = false)
    (h : w.busWrite bus a v n = some w') : RomsKept w.targets w'.targets := by
  unfold BusPort.busWrite at h
  split at h
  next hit =>
    obtain ⟨i, hi, h⟩ := Option.bind_eq_some_iff.1 h
    obtain ⟨t, ht, h⟩ := Option.bind_eq_some_iff.1 h
    cases h
    -- the window belongs to no boot ROM
    refine .update fun m hm => ?_
    rw [BusPort.hitsRom, hit, hi] at hr
    simp [hm, Target.isBootRom] at hr
  next =>
    obtain ⟨x, -, h⟩ := Option.bind_eq_some_iff.1 h
    obtain ⟨y, hy, h⟩ := Option.bind_eq_some_iff.1 h
    cases h
    exact romsKept_bTransport hy

theorem romsKept_elsewhere (o : Elsewhere δ) (h : o.apply bus w = some w') :
    RomsKept w.targets w'.targets := by
  cases o with
  | transport payload =>
    obtain ⟨x, hx, h⟩ := Option.bind_eq_some_iff.1 h
    cases h
    exact romsKept_bTransport hx
  | device i f =>
    cases h
    refine .update fun m hm => ?_
    rw [hm]
    rfl
  | invalidate id start finish =>
    cases h
    unfold TlmBus.invalidateDirectMemPtr
    split
    · exact .refl _
    · unfold BusPort.invalidateDmi
      split
      · exact .refl _
      · exact .refl _

/-- The world, as long as no host access was out of bounds, has the boot ROMs of `targets`. -/
def HasRoms (targets : ℕ → Target δ) (w : Option (BusPort δ)) : Prop :=
  ∀ w' ∈ w, RomsKept targets w'.targets

variable {targets : ℕ → Target δ}

theorem HasRoms.apply {w : Option (BusPort δ)} (h : HasRoms targets w) {op : BusOp}
    (hr : op.writesRom w = false) : HasRoms targets (op.apply (socBus bus) w) := by
  intro w' hw'
  cases op with
  | read a n =>
    obtain ⟨w, rfl, v, hw⟩ := (socBus_read_eq_some bus).1 hw'
    exact (h w rfl).trans (romsKept_busRead hw)
  | write a v n =>
    obtain ⟨w, rfl, hw⟩ := Option.bind_eq_some_iff.1 hw'
    exact (h w rfl).trans (romsKept_busWrite hr hw)
  | dropDmi =>
    obtain ⟨w, rfl, rfl⟩ := Option.map_eq_some_iff.1 hw'
    exact h w rfl

/-! ### Runs -/

/-- No write of the iteration hits a window of a boot ROM. -/
def NoRomWrite (bus : TlmBus) (iss : ISS (Option (BusPort δ))) :
    Input (Option (BusPort δ)) → Prop
  | .cycle pick => ∀ x ∈ iss.busOps (socBus bus) pick, x.1.writesRom x.2 = false
  | _ => True

/-- **The boot ROMs keep their bytes** in every run in which no write of the CPU hits a window of a
boot ROM. -/
theorem rom_kept_run {iss : ISS (Option (BusPort δ))} {is : List (Input (Option (BusPort δ)))}
    {w₀ w : BusPort δ} (h₀ : iss.env.bus = some w₀)
    (hw : ∀ f, .world f ∈ is → FromElsewhere bus f)
    (hc : (issMachine (socBus bus)).Along (NoRomWrite bus) iss is)
    (h : ((issMachine (socBus bus)).run iss is).env.bus = some w) :
    RomsKept w₀.targets w.targets := by
  suffices H : HasRoms w₀.targets ((issMachine (socBus bus)).run iss is).env.bus from H w h
  clear h
  induction is using List.reverseRecOn with
  | nil =>
    intro w' hw'
    obtain rfl : w₀ = w' := Option.some.inj (h₀.symm.trans hw')
    exact .refl _
  | append_singleton is i ih =>
    rw [Machine.along_snoc] at hc
    have hP := ih (fun f hf => hw f (List.mem_append_left _ hf)) hc.1
    rw [Machine.run_snoc]
    cases i with
    | cycle pick => exact ISS.iterate_of_busOps hP fun x hx hx' => hx'.apply (hc.2 x hx)
    | world f =>
      obtain ⟨o, rfl⟩ := hw f (by simp)
      intro w' hw'
      obtain ⟨w, hs, hw'⟩ := Option.bind_eq_some_iff.1 hw'
      exact (hP w hs).trans (romsKept_elsewhere o hw')
    | line | halt | resume | step => exact hP

end

/-! ### Two programs -/

/-- The first byte of the boot ROM. -/
def romByte (w : BusPort Unit) : Option Byte :=
  match w.targets 0 with
  | .bootRom m => m.mem[0]?
  | _ => none

theorem RomsKept.romByte {w w' : BusPort Unit} {b : Byte} (h : RomsKept w.targets w'.targets)
    (hb : romByte w = some b) : romByte w' = some b := by
  unfold VirtualSoC.romByte at hb ⊢
  cases ht : w.targets 0 with
  | bootRom m =>
    rw [h 0 m ht]
    rwa [ht] at hb
  | memory m | device d =>
    rw [ht] at hb
    cases hb

/-- `sw x0, 0(x0)` in RAM: over the window of the RAM the store goes to the boot ROM, which rejects
it. -/
def storeFromRam : ISS (Option (BusPort Unit)) :=
  barePlatform [] [0x00002023] nil_fits (by decide)

theorem rom_kept_run_sw :
    ∃ w₀ w, storeFromRam.env.bus = some w₀ ∧
      ((issMachine (socBus platformBus)).run storeFromRam (cycles 1)).env.bus = some w ∧
      RomsKept w₀.targets w.targets := by
  have hsome : ((issMachine (socBus platformBus)).run storeFromRam (cycles 1)).env.bus.isSome := by
    decide +kernel
  have hops : ∀ x ∈ storeFromRam.busOps (socBus platformBus) (fun _ => 0),
      x.1.writesRom x.2 = false := by
    decide +kernel
  have hc : (issMachine (socBus platformBus)).Along (NoRomWrite platformBus) storeFromRam
      (cycles 1) := ⟨hops, trivial⟩
  have hworld (f) (hf : .world f ∈ cycles 1) : FromElsewhere platformBus f := by
    simp [cycles] at hf
  obtain ⟨w, hw⟩ := Option.isSome_iff_exists.1 hsome
  exact ⟨_, w, rfl, hw, rom_kept_run rfl hworld hc hw⟩

/-- `jalr x0, 0(x0)` in RAM; `fence.i; sw x0, 0(x0)` in the boot ROM. -/
def storeFromRom : ISS (Option (BusPort Unit)) :=
  barePlatform [0x0000100F, 0x00002023] [0x00000067] (by decide) (by decide)

/-- FENCE.I in the boot ROM drops the window of the RAM, the next fetch caches that of the ROM, and
the store goes through it. -/
theorem not_rom_kept_run_fencei :
    ∃ w₀ w, storeFromRom.env.bus = some w₀ ∧
      ((issMachine (socBus platformBus)).run storeFromRom (cycles 3)).env.bus = some w ∧
      ¬ RomsKept w₀.targets w.targets := by
  have hafter : ((issMachine (socBus platformBus)).run storeFromRom (cycles 3)).env.bus.map romByte
      = some (some 0) := by
    decide +kernel
  obtain ⟨w, hw, hb⟩ := Option.map_eq_some_iff.1 hafter
  refine ⟨_, w, rfl, hw, fun h => ?_⟩
  have hbefore := h.romByte (b := 0x0F) (by decide +kernel)
  rw [hb] at hbefore
  exact absurd hbefore (by decide)

end VirtualSoC
