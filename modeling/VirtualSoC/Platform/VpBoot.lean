import VirtualSoC.Platform.LoadSpec
import VirtualSoC.Platform.VpProgram

/-!
# From the file to the running program

`vp_boots` : the platform that the constructor builds from an ELF file runs the program in it.
-/

namespace VirtualSoC

open Cfg

/-! ### The memory of a program -/

section

variable {size : ℕ} (file : Vector Byte size)

/-- A segment at an address. -/
def segmentAt (a : Word) : Option Elf32Phdr :=
  (ptLoads file).find? fun ph => (a - ph.pPaddr).toNat < ph.imageLen

/-- The memory that a file describes: the bytes of its segments, and zeros around them. -/
def imageRam : Isa.Mem := fun a =>
  match segmentAt file a with
  | some ph => ph.imageByte file (a - ph.pPaddr).toNat
  | none => 0

variable {file}

theorem segmentAt_spec {a : Word} {ph : Elf32Phdr} (h : segmentAt file a = some ph) :
    ph ∈ ptLoads file ∧ (a - ph.pPaddr).toNat < ph.imageLen ∧
      a = ph.pPaddr + BitVec.ofNat 32 (a - ph.pPaddr).toNat := by
  refine ⟨List.mem_of_find?_eq_some h, by simpa using List.find?_some h, ?_⟩
  rw [BitVec.ofNat_toNat, BitVec.setWidth_eq]
  exact (add_sub_cancel ph.pPaddr a).symm

/-- Which of the segments at an address is found does not matter. -/
theorem imageRam_eq (h : Placed file) {ph : Elf32Phdr} (hph : ph ∈ ptLoads file) {a : Word} {k : ℕ}
    (hk : k < ph.imageLen) (ha : a = ph.pPaddr + BitVec.ofNat 32 k) :
    imageRam file a = ph.imageByte file k := by
  have hoff : (a - ph.pPaddr).toNat = k := by
    rw [ha]
    exact toNat_add_sub ph.pPaddr (hk.trans ph.imageLen_lt)
  unfold imageRam
  cases hat : segmentAt file a with
  | none =>
    have hnot := List.find?_eq_none.1 hat ph hph
    rw [hoff] at hnot
    exact absurd (decide_eq_true hk) hnot
  | some ph' =>
    obtain ⟨hph', hk', ha'⟩ := segmentAt_spec hat
    exact h.agree ph' hph' ph hph _ hk' k hk (ha'.symm.trans ha)

theorem ramContent_loaded {ws : List ElfWrite} {r : ElfLoadResult} {m : Memories}
    (hload : doLoad file = some (ws, .ok r)) (hm : Memories.elfWrites {} ws = some m)
    (h : Placed file) {a : Word} (hlo : 0x80000000 ≤ a.toNat) (hhi : a.toNat < 0x88000000) :
    ramContent m.ram a = imageRam file a := by
  obtain ⟨eh, -, -, rfl, hparts⟩ := doLoad_ok hload
  have hoff : (a - ramBase).toNat = a.toNat - 0x80000000 :=
    BitVec.toNat_sub_of_le (BitVec.le_def.2 hlo)
  have hlt : a.toNat - 0x80000000 < ramSize.toNat := by
    rw [toNat_ramSize]
    omega
  have hbyte : m.byteAt a = some (imageRam file a) := by
    refine Memories.byteAt_elfWrites (fun w hw hcov => ?_) ?_ hm
    · obtain ⟨ph, hph, hw⟩ := List.mem_flatMap.1 hw
      obtain ⟨k, hk, ha, hbyte⟩ := byteAt_of_covers (hparts ph hph) hw hcov
      rw [hbyte, imageRam_eq h hph hk ha]
    · cases hat : segmentAt file a with
      | none =>
        -- no segment is here, and the memory is zero when it is built
        right
        have hzero : imageRam file a = 0 := by
          unfold imageRam
          rw [hat]
        rw [hzero, Memories.byteAt, hoff, Vector.getElem?_eq_getElem hlt, Option.some_or]
        exact congrArg some (Vector.getElem_replicate hlt)
      | some ph =>
        left
        obtain ⟨hph, hk, ha⟩ := segmentAt_spec hat
        obtain ⟨w, hw, hcov⟩ := exists_covers (hparts ph hph) hk
        rw [← ha] at hcov
        have hacc := accepted_of_fits (h.fits ph hph) (Nat.zero_lt_of_lt hk) (hparts ph hph) hw
        exact ⟨w, List.mem_flatMap.2 ⟨ph, hph, hw⟩, hacc, hcov⟩
  rw [Memories.byteAt, hoff, Vector.getElem?_eq_getElem hlt, Option.some_or] at hbyte
  rw [ramContent, Vector.getElem?_eq_getElem hlt, Option.getD_some]
  exact Option.some.inj hbyte

end

/-! ### The platform -/

/-- The platform when its threads start. -/
def GamingCpuVp.launch (vp : GamingCpuVp Device) : Vp := { iss := vp.start }

/-- A program whose segments fit into the memories is loaded, and then runs on the platform as the
manual says, from the reset pc and from a memory with the bytes of the file and zeros around them:
one instruction an iteration, whatever the timers and the host do meanwhile. -/
theorem vp_boots {size : ℕ} {file : Vector Byte size} {files : Files} {path : String}
    (hpath : path ≠ "") (hfile : files path = some ⟨size, file⟩)
    (hload : (doLoad file).any fun x => x.2.isOk) (h : Placed file) (card : Option SDCardModel) :
    ∃ vp, GamingCpuVp.construct files path (initialDevices card) = some (.ok vp) ∧
      ∀ (is : List VpInput) (h' : Isa.State), (∀ i ∈ is, i.Running) →
        Isa.Steps (.memory 0x80000000 0x88000000) ⟨CPUState.regFile {}, ramBase, imageRam file⟩
          (is.countP (·.isCycle)) h' →
        (vpMachine.run vp.launch is).Shows (CPUState.mode {}) Direct h' ∧
          (∀ e ∈ vpMachine.trace vp.launch is, e.trap = none) ∧
          (vpMachine.trace vp.launch is).countP (·.insn.isSome) = is.countP (·.isCycle) := by
  obtain ⟨vp, hvp⟩ := exists_construct (initialDevices card) hpath hfile hload
  refine ⟨vp, hvp, fun is h' hi hrun => ?_⟩
  obtain ⟨ws, r, hload, m, hm, rfl⟩ := (construct_iff hpath hfile).1 hvp
  have hshows := Vp.shows_reset m.bootrom m.ram card (m := imageRam file)
    fun a hlo hhi => ramContent_loaded hload hm h hlo hhi
  exact hshows.run (serves_bare ⟨rfl, by decide⟩ vp_ramAt (by decide)) (.inr ⟨rfl, by decide⟩) hi
    hrun

/-! The file with `addi x1, x0, 42` at the start of the RAM. -/

theorem placed_minimalElf : Placed (minimalElf ramBase ramBase) := by
  have hph : ptLoads (minimalElf ramBase ramBase) = [⟨1, 84, ramBase, 8, 16⟩] := by
    decide +kernel
  exact placed_of_singleton hph (.inr (.inl (by decide)))

theorem step_minimalElf : Isa.Step (.memory 0x80000000 0x88000000)
    ⟨CPUState.regFile {}, ramBase, imageRam (minimalElf ramBase ramBase)⟩
    ⟨(CPUState.regFile {}).write 1 42, 0x80000004, imageRam (minimalElf ramBase ramBase)⟩ := by
  have hword : (imageRam (minimalElf ramBase ramBase)).word ramBase =
      (Isa.Instr.opImm .addi 1 0 42).encode := by decide +kernel
  generalize imageRam (minimalElf ramBase ramBase) = m at hword ⊢
  exact .retire (.word hword) (show 2 ∣ ramBase.toNat by decide)
    (show 0x80000000 ≤ ramBase.toNat ∧ ramBase.toNat + 4 ≤ 0x88000000 by decide) trivial rfl

/-- A tick, and the instruction. -/
theorem vp_boots_minimal : ∃ vp,
    GamingCpuVp.construct (oneFile (minimalElf ramBase ramBase)) "a.elf" (initialDevices none) =
      some (.ok vp) ∧
    (vpMachine.run vp.launch [.clintTick, .cycle fun _ => 0]).Shows (CPUState.mode {}) Direct
      ⟨(CPUState.regFile {}).write 1 42, 0x80000004, imageRam (minimalElf ramBase ramBase)⟩ := by
  obtain ⟨vp, hvp, hboots⟩ := vp_boots (by decide) (oneFile_eq (minimalElf ramBase ramBase))
    (by decide +kernel) placed_minimalElf none
  exact ⟨vp, hvp, (hboots [.clintTick, .cycle fun _ => 0] _ (by simp [VpInput.Running])
    (.tail .refl step_minimalElf)).1⟩

end VirtualSoC
