import VirtualSoC.Cpu.VirtualSpace
import VirtualSoC.Platform.VpProgram

/-!
# The platform runs programs in virtual memory

`vp_runs_user` : a program below machine mode, in an address space in the RAM, does on the platform
what `Isa.Steps` says of a memory at its virtual addresses.
-/

namespace VirtualSoC

open Cfg

/-- A program in an address space with interrupts off runs on the platform as the manual says: after
as many instructions as the run loop has made iterations, the registers and the program counter are
those of the program, and so is every byte of its memory, in the frames that the page tables give
it. -/
theorem vp_runs_user {r₀ : Ram} {c : HartMode} (hspace : AddressSpace r₀ c 0x80000000 0x88000000)
    (hmie : c.mie = 0) {s : Vp} {h h' : Isa.State} {is : List VpInput}
    (hs : s.Shows c (Virtual r₀ c) h) (hi : ∀ i ∈ is, i.Running)
    (hrun : Isa.Steps (virtualSpace r₀ c) h (is.countP (·.isCycle)) h') :
    (vpMachine.run s is).Shows c (Virtual r₀ c) h' ∧ (∀ e ∈ vpMachine.trace s is, e.trap = none) ∧
      (vpMachine.trace s is).countP (·.insn.isSome) = is.countP (·.isCycle) :=
  hs.run (serves_virtual hspace vp_ramAt) (.inl hmie) hi hrun

/-! Page tables with one superpage, and a RAM of `c.addi x2, 0` parcels behind it. -/

/-- The leaf of the superpage: valid, readable, writable, executable, for users, and used. -/
def userPte : Word := 0x201000DF

/-- The tables, and the same byte behind them. -/
def filledRam (b : Byte) : Ram :=
  Bytes.writeLE (fun a => if 0x80400000 ≤ a.toNat then b else 0) (0x80000000 : Word) userPte 4

/-- The RAM of `c.addi x2, 0` parcels. -/
abbrev userRam : Ram := filledRam 1

/-- User mode, with the tables in the RAM, and no interrupt enabled. -/
def userMode : HartMode := ⟨prvU, 0x80080000, 0, 0⟩

theorem filledRam_content (b : Byte) {a : Word} (h : 0x80400000 ≤ a.toNat) : filledRam b a = b := by
  rw [filledRam, Bytes.writeLE_apply (by decide), if_neg, if_pos h]
  rw [BitVec.toNat_sub_of_le (BitVec.le_def.2 (le_trans (by decide) h))]
  change ¬ a.toNat - 0x80000000 < 4
  omega

theorem toNat_pageIndex_one (a : Word) :
    (pageIndex (a >>> pageShift) 1).toNat = a.toNat / 2 ^ 22 := by
  have ha := a.isLt
  have h := toNat_and_ones (a >>> pageShift >>> 10) (n := 10) (by decide)
  rw [BitVec.toNat_ushiftRight, BitVec.toNat_ushiftRight, Nat.shiftRight_eq_div_pow,
    Nat.shiftRight_eq_div_pow] at h
  change (pageIndex (a >>> pageShift) 1).toNat = a.toNat / 2 ^ 12 / 2 ^ 10 % 2 ^ 10 at h
  omega

theorem pteAt_filledRam {b : Byte} {a : Word} (h : ¬ a.toNat < 2 ^ 22) :
    pteAt (filledRam b) (0x80000000 + pageIndex (a >>> pageShift) 1 * 4) = 0 := by
  have ha := a.isLt
  have hidx := toNat_pageIndex_one a
  have haddr : (0x80000000 + pageIndex (a >>> pageShift) 1 * 4).toNat =
      0x80000000 + a.toNat / 2 ^ 22 * 4 := by
    rw [BitVec.toNat_add, BitVec.toNat_mul, hidx]
    change (2147483648 + a.toNat / 2 ^ 22 * 4 % 4294967296) % 4294967296 = _
    omega
  generalize 0x80000000 + pageIndex (a >>> pageShift) 1 * 4 = x at haddr ⊢
  refine BitVec.eq_of_getLsbD_eq fun i hi => ?_
  have hbyte : filledRam b (x + BitVec.ofNat 32 (i / 8)) = 0 := by
    have hx : (x + BitVec.ofNat 32 (i / 8)).toNat = x.toNat + i / 8 := by
      rw [BitVec.toNat_add, BitVec.toNat_ofNat]
      omega
    rw [filledRam, Bytes.writeLE_apply (by decide), if_neg, if_neg (by omega)]
    rw [BitVec.toNat_sub_of_le (BitVec.le_def.2 (show 0x80000000 ≤ _ by omega)), hx]
    change ¬ x.toNat + i / 8 - 0x80000000 < 4
    omega
  rw [pteAt, Bytes.getLsbD_readLE, hbyte]
  simp

theorem findLeaf_filledRam (b : Byte) (a : Word) :
    findLeaf (filledRam b) userMode.satp (a >>> pageShift) =
    if a.toNat < 2 ^ 22 then some ⟨0x80000000, userPte, true, by decide, by decide⟩ else none := by
  have hroot : rootTable userMode.satp = 0x80000000 := by decide
  rw [findLeaf, hroot, findLeafFrom.eq_def]
  dsimp only
  by_cases h : a.toNat < 2 ^ 22
  · have hidx : pageIndex (a >>> pageShift) 1 = 0 := by
      apply BitVec.eq_of_toNat_eq
      rw [toNat_pageIndex_one]
      exact Nat.div_eq_of_lt h
    have hpte : pteAt (filledRam b) (0x80000000 + 0 * 4) = userPte := pteAt_writeLE_self _ _ _
    simp only [hidx, hpte]
    rw [if_pos h]
    rfl
  · simp only [pteAt_filledRam h]
    rw [if_neg h]
    rfl

theorem maps_filledRam {b : Byte} {type : AccessType} {a p : Word} :
    Maps (filledRam b) userMode type a p ↔ a.toNat < 2 ^ 22 ∧ p.toNat = 0x80400000 + a.toNat := by
  rw [maps_iff, findLeaf_filledRam b]
  by_cases h : a.toNat < 2 ^ 22
  · have haddr : (leafPaddr (userPte >>> ptePpnShift) true a).toNat = 0x80400000 + a.toNat := by
      have hor := toNat_or_offset (0x80400000 : Word) a (n := 22) (by decide) (by decide)
      change (leafPaddr (userPte >>> ptePpnShift) true a).toNat = 0x80400000 + _ at hor
      rw [hor, Nat.mod_eq_of_lt h]
    have hperm : checkPermissions userPte type userMode.priv userMode.mstatus = true := by
      cases type <;> decide
    rw [if_pos h]
    constructor
    · rintro ⟨_, ⟨⟩, -, rfl⟩
      exact ⟨h, haddr⟩
    · rintro ⟨-, hp⟩
      exact ⟨_, rfl, hperm, BitVec.eq_of_toNat_eq (haddr.trans hp.symm)⟩
  · rw [if_neg h]
    exact iff_of_false (by simp) fun hand => h hand.1

theorem tableWords_filledRam {b : Byte} {a : Word} (h : a.toNat < 2 ^ 22) :
    tableWords (filledRam b) userMode a = [0x80000000] := by
  have hroot : rootTable userMode.satp = 0x80000000 := by decide
  have hidx : pageIndex (a >>> pageShift) 1 = 0 := by
    apply BitVec.eq_of_toNat_eq
    rw [toNat_pageIndex_one]
    exact Nat.div_eq_of_lt h
  have hpte : pteAt (filledRam b) (0x80000000 + 0 * 4) = userPte := pteAt_writeLE_self _ _ _
  rw [tableWords, hroot, walkWords.eq_def]
  simp only [hidx, hpte]
  rfl

theorem addressSpace_filledRam (b : Byte) :
    AddressSpace (filledRam b) userMode 0x80000000 0x88000000 where
  priv := by decide
  sv32 := by decide
  frame h := by
    obtain ⟨ha, hp⟩ := maps_filledRam.1 h
    omega
  unaliased hw h := by
    obtain ⟨ha, hp⟩ := maps_filledRam.1 hw
    obtain ⟨hb, hq⟩ := maps_filledRam.1 h
    exact BitVec.eq_of_toNat_eq (by omega)
  tables h x hx := by
    rw [tableWords_filledRam (maps_filledRam.1 h).1, List.mem_singleton] at hx
    rw [hx]
    exact ⟨by decide, by decide⟩
  apart h h' x hx := by
    obtain ⟨hb, hq⟩ := maps_filledRam.1 h'
    rw [tableWords_filledRam (maps_filledRam.1 h).1, List.mem_singleton] at hx
    have hbase : (0x80000000 : Word).toNat = 0x80000000 := rfl
    rw [hx, BitVec.toNat_sub_of_le (BitVec.le_def.2 (by omega)), hbase]
    omega

/-- The platform with the tables in its RAM, and the CPU in user mode at address 0. -/
def filledPlatform (b : Byte) : Vp :=
  let s :=
    Vp.reset (.replicate _ 0) (.ofFn fun i => filledRam b (BitVec.ofNat 32 (0x80000000 + i))) none
  { s with iss := { s.iss with state :=
      { pc := 0, priv := prvU, csr := { satp := 0x80080000, mstatus := 0, mie := 0 } } } }

/-- The platform with the `c.addi x2, 0` parcels. -/
abbrev userPlatform : Vp := filledPlatform 1

theorem vpView_filledPlatform (b : Byte) : VpView (filledPlatform b).iss.env.bus (filledRam b) :=
  (vpView_reset _ _ none).congr fun a hlo hhi => by
    have hlt : a.toNat - 0x80000000 < ramSize.toNat := by
      rw [toNat_ramSize]
      omega
    have haddr : 0x80000000 + (a.toNat - 0x80000000) = a.toNat := by omega
    rw [ramContent, Vector.getElem?_ofFn, dif_pos hlt, Option.getD_some]
    simp only [haddr, BitVec.ofNat_toNat, BitVec.setWidth_eq]

theorem virtual_filledRam (b : Byte) :
    Virtual (filledRam b) userMode ∅ (filledRam b) fun _ => b where
  tables _ _ _ := .refl _
  content h := by
    obtain ⟨ha, hp⟩ := maps_filledRam.1 h
    exact (filledRam_content b (by omega)).symm
  cached h := by cases h

theorem userPlatform_shows :
    userPlatform.Shows userMode (Virtual userRam userMode) (sled 0 0) :=
  ⟨⟨rfl, rfl, rfl, rfl, regFile_sled 0 0, rfl, userRam, vpView_filledPlatform 1,
    virtual_filledRam 1⟩, rfl, rfl⟩

theorem filledSpace_fetch {b : Byte} {a : Word} (ha : a.toNat < 2 ^ 22)
    (hoff : a &&& 0xFFF ≠ 0xFFE) :
    (virtualSpace (filledRam b) userMode).fetch a := by
  refine ⟨⟨BitVec.ofNat 32 (0x80400000 + a.toNat), maps_filledRam.2 ⟨ha, ?_⟩⟩, hoff⟩
  rw [BitVec.toNat_ofNat]
  omega

/-- Three instructions, and a tick and a byte between them. -/
theorem vp_runs_user_sled :
    let is : List VpInput :=
      [.cycle fun _ => 0, .clintTick, .cycle fun _ => 0, .pushRx 0x41, .cycle fun _ => 0]
    (vpMachine.run userPlatform is).Shows userMode (Virtual userRam userMode) (sled 0 3) ∧
      (∀ e ∈ vpMachine.trace userPlatform is, e.trap = none) ∧
      (vpMachine.trace userPlatform is).countP (·.insn.isSome) = is.countP (·.isCycle) := by
  have hstep (n : ℕ) (hn : n < 3) : Isa.Step (virtualSpace userRam userMode) (sled 0 n)
      (sled 0 (n + 1)) := by
    interval_cases n
    all_goals exact sled_step (by decide) (filledSpace_fetch (by decide) (by decide))
  exact vp_runs_user (addressSpace_filledRam 1) rfl userPlatform_shows (by simp [VpInput.Running])
    (.tail (.tail (.tail .refl (hstep 0 (by decide))) (hstep 1 (by decide))) (hstep 2 (by decide)))

end VirtualSoC
