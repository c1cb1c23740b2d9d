import VirtualSoC.Cpu.DmiSpec
import VirtualSoC.Cpu.RamBus
import VirtualSoC.Cpu.RomSpec
import VirtualSoC.Platform.GamingCpuVp

/-!
# The RAM of the platform

The bus port of the platform has RAM at the addresses of `RAM_BASE` (`platform_ramAt`), whether an
access takes the DMI window or the bus.
-/

namespace VirtualSoC

open Cfg

/-! ### Words and buffers -/

section

variable {l n off : ℕ} {mem : Vector Byte l} {m : Ram} {a : Word}

/-- The word in a buffer that the bytes have been copied into. -/
theorem ofLE_of_copy {v : Vector Byte 4} (h : Buffer.copy zeroBuf 0 mem off n = some v)
    (hbytes : ∀ k < n, mem[off + k]? = some (m (a + BitVec.ofNat 32 k))) :
    (Bytes.ofLE v : Word) = Bytes.readLE m a n := by
  refine BitVec.eq_of_getLsbD_eq fun i hi => ?_
  rw [Bytes.getLsbD_ofLE v hi, Bytes.getLsbD_readLE, Buffer.getElem?_of_copy h]
  by_cases hin : i < 8 * n
  · rw [if_pos (by omega), hbytes _ (by omega)]
    simp [hi, hin]
  · have hzero : zeroBuf[i / 8]? = some 0 := by
      rw [zeroBuf, Vector.getElem?_eq_getElem (by omega), Vector.getElem_replicate]
    rw [if_neg (by omega), hzero]
    simp [hin]

/-- The bytes after a word has been copied into the buffer. -/
theorem getElem?_of_copy_toLE {mem' : Vector Byte l} {v : Word} (hn : n ≤ 4)
    (h : Buffer.copy mem off (Bytes.toLE v 4) 0 n = some mem') {p : Word} {i : ℕ}
    (hi : i = off + (p - a).toNat ∧ (p - a).toNat < n ∨ ¬ (off ≤ i ∧ i < off + n) ∧
      n ≤ (p - a).toNat)
    (hp : mem[i]? = some (m p)) : mem'[i]? = some (Bytes.writeLE m a v n p) := by
  rw [Buffer.getElem?_of_copy h, Bytes.writeLE_apply (by omega)]
  rcases hi with ⟨rfl, hk⟩ | ⟨hi, hk⟩
  · rw [if_pos (by omega), if_pos hk]
    rw [Nat.zero_add, Nat.add_sub_cancel_left, Bytes.toLE, Vector.getElem?_ofFn,
      dif_pos (by omega)]
  · rw [if_neg hi, if_neg (by omega), hp]

end

/-! ### The platform -/

/-- What the targets of the platform grant. -/
def platformGrants : ℕ → Option TlmDmi
  | 0 => some ⟨0, (bootRomSize - 1).setWidth 64, .read⟩
  | 1 => some ⟨0, (ramSize - 1).setWidth 64, .readWrite⟩
  | _ => none

/-- The range of the RAM. -/
def ramRange : MappedRange := ⟨ramBase, ramSize, 1⟩

theorem toNat_ramBase : ramRange.base.toNat = 0x80000000 := by decide

theorem toNat_ramSize : ramSize.toNat = 0x08000000 := by decide

variable {δ : Type}

/-- The bus port of the platform, with `m` in its RAM. -/
structure BusPort.PlatformRam (w : BusPort δ) (m : Ram) : Prop where
  window : w.WindowGranted platformBus
  grants : ∀ i, (w.targets i).getDirectMemPtr = platformGrants i
  ram : ∃ mem, w.targets ramRange.targetIdx = .memory ⟨ramSize, mem⟩ ∧
    ∀ a : Word, 0x80000000 ≤ a.toNat → a.toNat < 0x88000000 → mem[a.toNat - 0x80000000]? = some (m a)

theorem platform_decode {a : Word} (hlo : 0x80000000 ≤ a.toNat) (hhi : a.toNat < 0x88000000) :
    platformBus.decode a = some ramRange :=
  (mapped_of_mapAll (mapAll_platformCalls .merge)).decode_eq (by decide)
    (show platformCalls[1]? = some ⟨ramBase, ramSize⟩ from rfl) ⟨hlo, hhi⟩

theorem ramOffset {a : Word} (hlo : 0x80000000 ≤ a.toNat) :
    (a - ramRange.base).toNat = a.toNat - 0x80000000 :=
  BitVec.toNat_sub_of_le (BitVec.le_def.2 hlo)

theorem ram_bounds (mem : Vector Byte ramSize.toNat) {a : Word} {n : ℕ}
    (hhi : a.toNat + n ≤ 0x88000000) : 0 < (Memory.mk ramSize mem).size.toNat ∧
      a.toNat + n ≤ ramRange.base.toNat + (Memory.mk ramSize mem).size.toNat := by
  rw [toNat_ramBase, toNat_ramSize]
  omega

namespace BusPort.PlatformRam

variable {w : BusPort δ} {m : Ram} (h : w.PlatformRam m) {a : Word} {n : ℕ} (hn : 0 < n ∧ n ≤ 4)
  (hlo : 0x80000000 ≤ a.toNat) (hlt : a.toNat < 0x88000000)

include h hn hlo hlt

/-- A hit at an address of the RAM is a hit in the window of the RAM. -/
theorem granted_of_hit (hit : w.dmiHit a n) :
    ∃ a₀, w.Granted platformBus a₀ ∧ platformBus.decode a₀ = some ramRange := by
  have hhit := hit
  simp only [dmiHit, decide_eq_true_eq] at hhit
  obtain ⟨hvalid, -, hlast⟩ := hhit
  obtain ⟨a₀, x, hx, hw⟩ := h.window hvalid
  refine ⟨a₀, ⟨x, hx, hw⟩, ?_⟩
  unfold TlmBus.getDirectMemPtr at hx
  cases hd : platformBus.decode a₀ with
  | none =>
    rw [hd] at hx
    cases hx
  | some r =>
    rw [hd] at hx
    obtain ⟨dmi, hdmi, rfl⟩ := Option.map_eq_some_iff.1 hx
    rw [h.grants] at hdmi
    have hranges : ∀ r ∈ platformBus.ranges, (platformGrants r.targetIdx).isSome →
        r = ⟨bootRomBase, bootRomSize, 0⟩ ∨ r = ramRange := by decide
    rcases hranges r (List.mem_of_find?_eq_some hd) (by rw [hdmi]; rfl) with rfl | rfl
    · -- the window of the boot ROM ends below the RAM
      cases hdmi
      rw [hw.finish, BitVec.le_def, BitVec.toNat_setWidth, BitVec.toNat_sub, BitVec.toNat_add,
        toNat_ofNat_bytes hn.2] at hlast
      change _ ≤ 0xFFFF at hlast
      have hone : (1 : Word).toNat = 1 := rfl
      omega
    · rfl

/-- An access past the end of the RAM misses the window. -/
theorem not_hit (hhi : 0x88000000 < a.toNat + n) : ¬ w.dmiHit a n := by
  intro hit
  obtain ⟨a₀, hg, hd⟩ := h.granted_of_hit hn hlo hlt hit
  obtain ⟨mem, ht, -⟩ := h.ram
  obtain ⟨-, hlast⟩ := (dmiHit_iff hg hd ht hn.1 hn.2).1 hit
  have hend : ramRange.base.toNat + (ramSize - 1).toNat = 0x87FFFFFF := by decide
  dsimp only at hlast
  omega

section

variable [TlmDevice δ]

omit h hn in
theorem bTransport_eq {k : ℕ} {trans : Payload k} (ht : trans.address = a.setWidth 64) :
    platformBus.bTransport w.targets trans = TlmBus.forward w.targets ramRange trans := by
  rw [TlmBus.bTransport, ht, setWidth_setWidth_word, platform_decode hlo hlt]

omit hn in
theorem busRead_of_miss (hmiss : ¬ w.dmiHit a n) {x : Payload 4 × (ℕ → Target δ)}
    (hf : TlmBus.forward w.targets ramRange (readTrans a n) = some x) (hx : x.2 = w.targets)
    {v : Vector Byte 4} (hv : Buffer.copy zeroBuf 0 x.1.data 0 n = some v) :
    ∃ w', w.busRead platformBus a n = some (Bytes.ofLE v, w') ∧ w'.PlatformRam m := by
  have hr : w.busRead platformBus a n =
      some (Bytes.ofLE v, if w.dmiValid then w else w.tryDmi platformBus a) := by
    rw [BusPort.busRead, if_neg hmiss, bTransport_eq hlo hlt (by rfl), hf]
    simp only [Option.bind_eq_bind, Option.bind_some, hv, hx]
    rfl
  have htargets :
      (if w.dmiValid then w else w.tryDmi platformBus a).targets = w.targets := by
    split
    · rfl
    · exact tryDmi_targets ..
  refine ⟨_, hr, windowGranted_busRead h.window hr, ?_, ?_⟩
  · rw [htargets]
    exact h.grants
  · rw [htargets]
    exact h.ram

omit hlt in
theorem busRead (hhi : a.toNat + n ≤ 0x88000000) :
    ∃ w', w.busRead platformBus a n = some (Bytes.readLE m a n, w') ∧ w'.PlatformRam m := by
  have hlt : a.toNat < 0x88000000 := by omega
  obtain ⟨mem, ht, hbytes⟩ := id h.ram
  have hlen : (a - ramRange.base).toNat + n ≤ ramSize.toNat := by
    rw [ramOffset hlo, toNat_ramSize]
    omega
  obtain ⟨v, hv⟩ := Buffer.exists_copy zeroBuf mem (show 0 + n ≤ 4 by omega) hlen
  obtain ⟨x, hf, hxd, hxt⟩ := forward_readTrans ht hn.2 hlen hv
  have hcopy : Buffer.copy zeroBuf 0 x.1.data 0 n = some v := by rw [hxd, Buffer.copy_copy hv, hv]
  have hval : (Bytes.ofLE v : Word) = Bytes.readLE m a n := by
    refine ofLE_of_copy hv fun k hk => ?_
    have hadd : (a + BitVec.ofNat 32 k).toNat = a.toNat + k := by
      rw [BitVec.toNat_add, BitVec.toNat_ofNat]
      omega
    rw [ramOffset hlo, ← hbytes _ (by omega) (by omega), hadd]
    exact congrArg (mem[·]?) (by omega)
  rw [← hval]
  by_cases hit : w.dmiHit a n
  · obtain ⟨a₀, hg, hd⟩ := h.granted_of_hit hn hlo hlt hit
    obtain ⟨hpos, hin⟩ := ram_bounds mem hhi
    obtain ⟨y, u, hfy, hu, hr⟩ :=
      (fastPathAgrees_of_inside hg hd ht hit hlo hpos hn.2 hin).read
    cases hf.symm.trans hfy
    cases hcopy.symm.trans hu
    rw [hxt] at hr
    exact ⟨_, hr, h⟩
  · exact h.busRead_of_miss hlo hlt hit hf hxt hcopy

theorem busRead_past (hhi : 0x88000000 < a.toNat + n) :
    ∃ w', w.busRead platformBus a n = some (0, w') ∧ w'.PlatformRam m := by
  obtain ⟨mem, ht, -⟩ := id h.ram
  have hlen := toNat_ofNat_bytes hn.2
  have hover : Memory.Overruns ⟨ramSize, mem⟩
      { readTrans a n with address := (a - ramRange.base).setWidth 64 } := by
    refine Memory.overruns_of_lt ?_ ?_
    all_goals
      dsimp only [readTrans]
      rw [setWidth_setWidth_word, ramOffset hlo, hlen]
    · rw [toNat_ramSize]
      omega
    · omega
  have href := Memory.bTransport_of_overruns hover
  have hf := TlmBus.forward_memory ht (readTrans a n)
  have haddr : ((readTrans a n).address.setWidth 32 : Word) = a := setWidth_setWidth_word a
  rw [haddr, href, Option.map_some, ← ht, Function.update_eq_self] at hf
  exact h.busRead_of_miss hlo hlt (h.not_hit hn hlo hlt hhi) hf rfl
    (Buffer.copy_in_place zeroBuf (by omega))

omit hlt in
theorem busWrite (hhi : a.toNat + n ≤ 0x88000000) (v : Word) :
    ∃ w', w.busWrite platformBus a v n = some w' ∧ w'.PlatformRam (Bytes.writeLE m a v n) := by
  have hlt : a.toNat < 0x88000000 := by omega
  obtain ⟨mem, ht, hbytes⟩ := id h.ram
  have hlen : (a - ramRange.base).toNat + n ≤ ramSize.toNat := by
    rw [ramOffset hlo, toNat_ramSize]
    omega
  obtain ⟨buf, hbuf⟩ := Buffer.exists_copy zeroBuf (Bytes.toLE v 4)
    (show 0 + n ≤ 4 by omega) (show 0 + n ≤ 4 by omega)
  obtain ⟨mem', hmem⟩ := Buffer.exists_copy mem (Bytes.toLE v 4) hlen (show 0 + n ≤ 4 by omega)
  obtain ⟨trans, x, htr, hf, hxt⟩ := forward_writeTrans ht hn.2 hlen hbuf hmem
  have hw : w.busWrite platformBus a v n = some { w with targets := x.2 } := by
    by_cases hit : w.dmiHit a n
    · obtain ⟨a₀, hg, hd⟩ := h.granted_of_hit hn hlo hlt hit
      obtain ⟨hpos, hin⟩ := ram_bounds mem hhi
      have hagree := fastPathAgrees_of_inside hg hd ht hit hlo hpos hn.2 hin
      obtain ⟨trans', y, htr', hfy, hr⟩ := hagree.write v
      rw [htr] at htr'
      cases htr'
      rw [hf] at hfy
      cases hfy
      exact hr
    · have haddr : trans.address = a.setWidth 64 := by
        rw [writeTrans, hbuf] at htr
        cases htr
        rfl
      rw [BusPort.busWrite, if_neg hit, htr, Option.bind_eq_bind, Option.bind_some,
        bTransport_eq hlo hlt haddr, hf]
      rfl
  refine ⟨_, hw, windowGranted_busWrite h.window hw, fun i => ?_, mem', ?_, fun p hplo hphi => ?_⟩
  · dsimp only
    rw [hxt]
    by_cases hi : i = 1
    · subst hi
      rw [show ramRange.targetIdx = 1 from rfl, Function.update_self]
      rfl
    · rw [show ramRange.targetIdx = 1 from rfl, Function.update_of_ne hi, h.grants]
  · dsimp only
    rw [hxt]
    exact Function.update_self ..
  · refine getElem?_of_copy_toLE (a := a) hn.2 hmem ?_ (hbytes p hplo hphi)
    rw [ramOffset hlo, BitVec.toNat_sub]
    omega

theorem busWrite_past (hhi : 0x88000000 < a.toNat + n) (v : Word) :
    w.busWrite platformBus a v n = some w := by
  obtain ⟨mem, ht, -⟩ := id h.ram
  have hlen := toNat_ofNat_bytes hn.2
  obtain ⟨buf, hbuf⟩ := Buffer.exists_copy zeroBuf (Bytes.toLE v 4)
    (show 0 + n ≤ 4 by omega) (show 0 + n ≤ 4 by omega)
  have htr : writeTrans a v n =
      some ⟨.write, a.setWidth 64, buf, BitVec.ofNat 32 n, .incomplete⟩ := by
    rw [writeTrans, hbuf]
    rfl
  have hover : Memory.Overruns (n := 4) ⟨ramSize, mem⟩
      ⟨.write, (a - ramRange.base).setWidth 64, buf, BitVec.ofNat 32 n, .incomplete⟩ := by
    refine Memory.overruns_of_lt ?_ ?_
    all_goals
      dsimp only
      rw [setWidth_setWidth_word, ramOffset hlo, hlen]
    · rw [toNat_ramSize]
      omega
    · omega
  have href := Memory.bTransport_of_overruns hover
  have hf := TlmBus.forward_memory ht (n := 4)
    ⟨.write, a.setWidth 64, buf, BitVec.ofNat 32 n, .incomplete⟩
  dsimp only at hf
  rw [setWidth_setWidth_word, href, Option.map_some, ← ht, Function.update_eq_self] at hf
  rw [BusPort.busWrite, if_neg (h.not_hit hn hlo hlt hhi), htr, Option.bind_eq_bind,
    Option.bind_some, bTransport_eq hlo hlt (by rfl), hf]
  rfl

end

end BusPort.PlatformRam

/-- The worlds of the platform bus with `m` in the RAM. -/
def PlatformView (δ : Type) (b : Option (BusPort δ)) (m : Ram) : Prop :=
  ∃ w, b = some w ∧ w.PlatformRam m

namespace PlatformView

variable {b : Option (BusPort δ)} {m m' : Ram} (h : PlatformView δ b m)

include h

theorem congr (heq : ∀ a : Word, 0x80000000 ≤ a.toNat → a.toNat < 0x88000000 → m a = m' a) :
    PlatformView δ b m' := by
  obtain ⟨w, rfl, hw⟩ := h
  obtain ⟨mem, ht, hbytes⟩ := hw.ram
  refine ⟨w, rfl, hw.window, hw.grants, mem, ht, fun a hlo hhi => ?_⟩
  rw [hbytes a hlo hhi, heq a hlo hhi]

theorem eq (h' : PlatformView δ b m') {a : Word} (hlo : 0x80000000 ≤ a.toNat)
    (hhi : a.toNat < 0x88000000) : m a = m' a := by
  obtain ⟨w, rfl, hw⟩ := h
  obtain ⟨w', hw', hww⟩ := h'
  cases hw'
  obtain ⟨mem, ht, hbytes⟩ := hw.ram
  obtain ⟨mem', ht', hbytes'⟩ := hww.ram
  rw [ht] at ht'
  cases ht'
  exact Option.some_injective _ ((hbytes a hlo hhi).symm.trans (hbytes' a hlo hhi))

end PlatformView

/-- **The platform has RAM at the addresses of the memory map.** -/
theorem platform_ramAt [TlmDevice δ] :
    RamAt (socBus platformBus) 0x80000000 0x88000000 (PlatformView δ) where
  read := by
    rintro b m ⟨w, rfl, h⟩ a n hn hlo hhi
    obtain ⟨w', hr, hw⟩ := h.busRead hn hlo hhi
    simp only [socBus, Option.bind_some, hr]
    exact ⟨trivial, w', rfl, hw⟩
  readPast := by
    rintro b m ⟨w, rfl, h⟩ a n hn hlo hlt hhi
    obtain ⟨w', hr, hw⟩ := h.busRead_past hn hlo hlt hhi
    simp only [socBus, Option.bind_some, hr]
    exact ⟨trivial, w', rfl, hw⟩
  write := by
    rintro b m ⟨w, rfl, h⟩ a n hn hlo hhi v
    exact h.busWrite hn hlo hhi v
  writePast := by
    rintro b m ⟨w, rfl, h⟩ a n hn hlo hlt hhi v
    exact ⟨w, h.busWrite_past hn hlo hlt hhi v, h⟩

/-- The content of a RAM vector. -/
def ramContent (ram : Vector Byte ramSize.toNat) : Ram := fun a => ram[a.toNat - 0x80000000]?.getD 0

theorem platformView_reset (rom : Vector Byte bootRomSize.toNat)
    (ram : Vector Byte ramSize.toNat) (devices : ℕ → δ) :
    PlatformView δ (platformReset rom ram devices).env.bus (ramContent ram) := by
  refine ⟨_, rfl, nofun, fun i => ?_, ram, rfl, fun a hlo hhi => ?_⟩
  · match i with
    | 0 => rfl
    | 1 => rfl
    | _ + 2 => rfl
  · have hlt : a.toNat - 0x80000000 < ramSize.toNat := by
      rw [toNat_ramSize]
      omega
    rw [ramContent, Vector.getElem?_eq_getElem hlt, Option.getD_some]

theorem exists_platformView_zero : ∃ b, PlatformView Unit b fun _ => 0 := by
  refine ⟨_, (platformView_reset (.replicate _ 0) (.replicate _ 0) fun _ => ()).congr
    fun a _ _ => ?_⟩
  unfold ramContent
  cases h : (Vector.replicate ramSize.toNat (0 : Byte))[a.toNat - 0x80000000]? with
  | none => rfl
  | some v =>
    obtain ⟨hlt, hv⟩ := Vector.getElem?_eq_some_iff.1 h
    rw [Vector.getElem_replicate] at hv
    exact hv.symm

end VirtualSoC
