import VirtualSoC.Platform.Construct
import VirtualSoC.Util.ElfImage

/-!
# The loaded program

Which bytes of a program are in memory when the simulation starts, and where it starts.

## Main results

* `no_segment_lost_iff` : every segment is in memory exactly when each of them fits into one memory
  and overlapping ones agree;
* `starts_at_entry_iff` : execution starts at the entry point exactly when that is the reset pc.
-/

namespace VirtualSoC

open Cfg

namespace Elf32Phdr

variable (ph : Elf32Phdr)

/-- The memory image lies in the range of `len` bytes from `base` on. -/
def InRange (base len : Word) : Prop :=
  base.toNat ≤ ph.pPaddr.toNat ∧ ph.pPaddr.toNat + ph.imageLen ≤ base.toNat + len.toNat

instance (base len : Word) : Decidable (ph.InRange base len) := inferInstanceAs (Decidable (_ ∧ _))

/-- The memory image lies in one of the two memories. -/
def Fits : Prop :=
  ph.imageLen = 0 ∨ ph.InRange ramBase ramSize ∨ ph.InRange bootRomBase bootRomSize

end Elf32Phdr

section

variable {size : ℕ} (file : Vector Byte size)

/-- The byte at a physical address. -/
def Memories.byteAt (m : Memories) (a : Word) : Option Byte :=
  (m.ram[(a - ramBase).toNat]?).or m.bootrom[(a - bootRomBase).toNat]?

/-- No segment is lost: each fits into a memory and is present there. -/
def NoSegmentLost (m : Memories) : Prop :=
  ∀ ph ∈ ptLoads file, ph.Fits ∧
    ∀ k < ph.imageLen, m.byteAt (ph.pPaddr + BitVec.ofNat 32 k) = some (ph.imageByte file k)

/-- Each segment fits into a memory, and where segments overlap they have the same bytes. -/
structure Placed : Prop where
  fits : ∀ ph ∈ ptLoads file, ph.Fits
  agree : ∀ ph ∈ ptLoads file, ∀ ph' ∈ ptLoads file, ∀ k < ph.imageLen, ∀ k' < ph'.imageLen,
    ph.pPaddr + BitVec.ofNat 32 k = ph'.pPaddr + BitVec.ofNat 32 k' →
      ph.imageByte file k = ph'.imageByte file k'

end

/-! ### The callback -/

namespace ElfWrite

variable (w : ElfWrite)

/-- The call lies in the range of `len` bytes from `base` on. -/
def InRange (base len : Word) : Prop :=
  base.toNat ≤ w.paddr.toNat ∧ w.paddr.toNat + w.len ≤ base.toNat + len.toNat

/-- The callback stores the bytes of the call. -/
def Accepted : Prop := w.InRange ramBase ramSize ∨ w.InRange bootRomBase bootRomSize

variable {w} {base len : Word}

/-- Distances from the base of a range and from the start of a call in it. -/
theorem InRange.covers_iff (h : w.InRange base len) (a : Word) :
    ((w.paddr - base).toNat ≤ (a - base).toNat ∧
      (a - base).toNat < (w.paddr - base).toNat + w.len) ↔ w.Covers a := by
  obtain ⟨hlow, hhigh⟩ := h
  have ha := a.isLt
  have hp := w.paddr.isLt
  simp only [Covers, BitVec.toNat_sub]
  omega

theorem InRange.distance (h : w.InRange base len) {a : Word} (hcov : w.Covers a) :
    (a - base).toNat - (w.paddr - base).toNat = (a - w.paddr).toNat ∧
      (a - base).toNat < len.toNat := by
  obtain ⟨hlow, hhigh⟩ := h
  have ha := a.isLt
  have hp := w.paddr.isLt
  simp only [Covers, BitVec.toNat_sub] at hcov ⊢
  omega

/-- The copy into the memory of a range is in bounds. -/
theorem InRange.exists_copy (h : w.InRange base len) (mem : Vector Byte len.toNat) :
    ∃ mem', Buffer.copy mem (w.paddr - base).toNat w.data 0 w.len = some mem' := by
  obtain ⟨hlow, hhigh⟩ := h
  refine Buffer.exists_copy mem w.data ?_ (by omega)
  rw [BitVec.toNat_sub_of_le (BitVec.le_def.2 hlow)]
  omega

theorem InRange.getElem?_of_copy (h : w.InRange base len) {mem mem' : Vector Byte len.toNat}
    (hcopy : Buffer.copy mem (w.paddr - base).toNat w.data 0 w.len = some mem') (a : Word) :
    mem'[(a - base).toNat]? = if w.Covers a then w.byteAt a else mem[(a - base).toNat]? := by
  rw [Buffer.getElem?_of_copy hcopy]
  by_cases hcov : w.Covers a
  · rw [if_pos hcov, if_pos ((h.covers_iff a).2 hcov), Nat.zero_add, (h.distance hcov).1,
      byteAt]
  · rw [if_neg hcov, if_neg (mt (h.covers_iff a).1 hcov)]

end ElfWrite

namespace Memories

variable {m m' : Memories} {w : ElfWrite}

theorem elfWrite_cases (m : Memories) (w : ElfWrite) :
    (w.InRange ramBase ramSize ∧ ∃ ram, Buffer.copy m.ram (w.paddr - ramBase).toNat w.data 0 w.len =
        some ram ∧ m.elfWrite w = some { m with ram }) ∨
      (w.InRange bootRomBase bootRomSize ∧ ∃ bootrom,
        Buffer.copy m.bootrom (w.paddr - bootRomBase).toNat w.data 0 w.len = some bootrom ∧
          m.elfWrite w = some { m with bootrom }) ∨
      (¬ w.Accepted ∧ m.elfWrite w = some m) := by
  have hram : (w.paddr ≥ ramBase ∧ w.paddr.toNat + w.len ≤ (ramBase + ramSize).toNat) ↔
      w.InRange ramBase ramSize := and_congr BitVec.le_def Iff.rfl
  have hrom : (w.paddr ≥ bootRomBase ∧
      w.paddr.toNat + w.len ≤ (bootRomBase + bootRomSize).toNat) ↔
      w.InRange bootRomBase bootRomSize := and_congr BitVec.le_def Iff.rfl
  unfold elfWrite
  by_cases h1 : w.InRange ramBase ramSize
  · obtain ⟨ram, hcopy⟩ := h1.exists_copy m.ram
    rw [if_pos (hram.2 h1), hcopy]
    exact .inl ⟨h1, ram, rfl, rfl⟩
  · rw [if_neg (mt hram.1 h1)]
    by_cases h2 : w.InRange bootRomBase bootRomSize
    · obtain ⟨bootrom, hcopy⟩ := h2.exists_copy m.bootrom
      rw [if_pos (hrom.2 h2), hcopy]
      exact .inr (.inl ⟨h2, bootrom, rfl, rfl⟩)
    · rw [if_neg (mt hrom.1 h2)]
      exact .inr (.inr ⟨not_or.2 ⟨h1, h2⟩, rfl⟩)

theorem byteAt_elfWrite (h : m.elfWrite w = some m') (a : Word) :
    (w.Accepted ∧ w.Covers a ∧ m'.byteAt a = w.byteAt a) ∨
      (¬ (w.Accepted ∧ w.Covers a) ∧ m'.byteAt a = m.byteAt a) := by
  rcases elfWrite_cases m w with ⟨hr, ram, hcopy, hm⟩ | ⟨hr, bootrom, hcopy, hm⟩ | ⟨hr, hm⟩
  · cases h.symm.trans hm
    have helem := hr.getElem?_of_copy hcopy a
    by_cases hcov : w.Covers a
    · refine .inl ⟨.inl hr, hcov, ?_⟩
      rw [if_pos hcov] at helem
      have hsome : w.byteAt a = some w.data[(a - w.paddr).toNat] := Vector.getElem?_eq_getElem hcov
      rw [byteAt, helem, hsome]
      rfl
    · refine .inr ⟨fun hc => hcov hc.2, ?_⟩
      rw [if_neg hcov] at helem
      rw [byteAt, helem, byteAt]
  · cases h.symm.trans hm
    have helem := hr.getElem?_of_copy hcopy a
    by_cases hcov : w.Covers a
    · refine .inl ⟨.inr hr, hcov, ?_⟩
      rw [if_pos hcov] at helem
      have hlt : a.toNat < 0x10000 := by
        have hdist := (hr.distance hcov).2
        rwa [show a - bootRomBase = a from BitVec.sub_zero a] at hdist
      -- the ROM lies below the RAM
      have hnone : m.ram[(a - ramBase).toNat]? = none := by
        refine Vector.getElem?_eq_none ?_
        rw [BitVec.toNat_sub]
        change 0x08000000 ≤ (2 ^ 32 - 0x80000000 + a.toNat) % 2 ^ 32
        omega
      rw [byteAt, helem, hnone, Option.none_or]
    · refine .inr ⟨fun hc => hcov hc.2, ?_⟩
      rw [if_neg hcov] at helem
      rw [byteAt, helem, byteAt]
  · cases h.symm.trans hm
    exact .inr ⟨fun hc => hr hc.1, rfl⟩

theorem exists_elfWrite (m : Memories) (w : ElfWrite) : ∃ m', m.elfWrite w = some m' := by
  rcases elfWrite_cases m w with ⟨-, ram, -, hm⟩ | ⟨-, bootrom, -, hm⟩ | ⟨-, hm⟩
  exacts [⟨_, hm⟩, ⟨_, hm⟩, ⟨_, hm⟩]

/-- The calls of a load, one after the other. -/
def elfWrites (m : Memories) (ws : List ElfWrite) : Option Memories :=
  ws.foldl (fun m w => m.bind (·.elfWrite w)) (some m)

theorem elfWrites_cons (m : Memories) (w : ElfWrite) (ws : List ElfWrite) :
    ∃ m₁, m.elfWrite w = some m₁ ∧ m.elfWrites (w :: ws) = m₁.elfWrites ws := by
  obtain ⟨m₁, hm⟩ := exists_elfWrite m w
  refine ⟨m₁, hm, ?_⟩
  rw [elfWrites, List.foldl_cons, Option.bind_some, hm]
  rfl

theorem exists_elfWrites (m : Memories) (ws : List ElfWrite) : ∃ m', m.elfWrites ws = some m' := by
  induction ws generalizing m with
  | nil => exact ⟨m, rfl⟩
  | cons w ws ih =>
    obtain ⟨m₁, -, heq⟩ := elfWrites_cons m w ws
    rw [heq]
    exact ih m₁

/-- An address to which all calls give one value holds it in the end, if a call stores it. -/
theorem byteAt_elfWrites {ws : List ElfWrite} {a : Word} {v : Byte}
    (hagree : ∀ w ∈ ws, w.Covers a → w.byteAt a = some v)
    (hsome : (∃ w ∈ ws, w.Accepted ∧ w.Covers a) ∨ m.byteAt a = some v)
    (h : m.elfWrites ws = some m') : m'.byteAt a = some v := by
  induction ws generalizing m with
  | nil =>
    cases h
    exact hsome.resolve_left fun ⟨_, hw, _⟩ => nomatch hw
  | cons w ws ih =>
    obtain ⟨m₁, hm, heq⟩ := elfWrites_cons m w ws
    rw [heq] at h
    refine ih (fun w' hw' => hagree w' (List.mem_cons_of_mem w hw')) ?_ h
    rcases byteAt_elfWrite hm a with ⟨-, hcov, hbyte⟩ | ⟨hnot, hbyte⟩
    · exact .inr (hbyte.trans (hagree w List.mem_cons_self hcov))
    · rcases hsome with ⟨w', hw', hacc⟩ | hsome
      · rcases List.mem_cons.1 hw' with rfl | hw'
        · exact absurd hacc hnot
        · exact .inl ⟨w', hw', hacc⟩
      · exact .inr (hbyte.trans hsome)

end Memories

/-! ### The segments -/

section

variable {size : ℕ} {file : Vector Byte size} {ph : Elf32Phdr} {w : ElfWrite}

/-- The calls of a segment in a range lie in the range. -/
theorem inRange_of_mem {base len : Word} (hb : base.toNat + len.toNat ≤ 2 ^ 32)
    (h : ph.InRange base len) (hpart : (filePart file ph).isSome)
    (hw : w ∈ segmentWrites file ph) : w.InRange base len := by
  obtain ⟨hlow, hhigh⟩ := h
  have hfile : ph.pFilesz.toNat ≤ ph.imageLen := le_max_left ..
  have hmem : ph.pMemsz.toNat ≤ ph.imageLen := le_max_right ..
  obtain ⟨part, hpart⟩ := Option.isSome_iff_exists.1 hpart
  rw [segmentWrites, hpart, Option.getD_some] at hw
  rcases List.mem_append.1 hw with hw | hw
  · rcases filePart_eq hpart with ⟨-, rfl⟩ | ⟨data, rfl, -⟩
    · cases hw
    · cases List.mem_singleton.1 hw
      exact ⟨hlow, le_trans (Nat.add_le_add_left hfile _) hhigh⟩
  · unfold bssPart at hw
    split at hw
    next hgt =>
      cases List.mem_singleton.1 hw
      have hlt := BitVec.lt_def.1 hgt
      have hsum : (ph.pPaddr + ph.pFilesz).toNat = ph.pPaddr.toNat + ph.pFilesz.toNat := by
        rw [BitVec.toNat_add, Nat.mod_eq_of_lt (by omega)]
      have hdiff := BitVec.toNat_sub_of_le (BitVec.le_def.2 hlt.le)
      refine ⟨?_, ?_⟩
      · change base.toNat ≤ (ph.pPaddr + ph.pFilesz).toNat
        omega
      · change (ph.pPaddr + ph.pFilesz).toNat + (ph.pMemsz - ph.pFilesz).toNat ≤ _
        omega
    next => cases hw

theorem accepted_of_fits (hfits : ph.Fits) (hlen : 0 < ph.imageLen)
    (hpart : (filePart file ph).isSome) (hw : w ∈ segmentWrites file ph) : w.Accepted := by
  rcases hfits with h0 | h | h
  · exact absurd h0 hlen.ne'
  · exact .inl (inRange_of_mem (by decide) h hpart hw)
  · exact .inr (inRange_of_mem (by decide) h hpart hw)

theorem noSegmentLost_iff {ws : List ElfWrite} {r : ElfLoadResult} {m m' : Memories}
    (hload : doLoad file = some (ws, .ok r)) (hm : m.elfWrites ws = some m') :
    NoSegmentLost file m' ↔ Placed file := by
  obtain ⟨eh, -, -, rfl, hparts⟩ := doLoad_ok hload
  constructor
  · intro h
    refine ⟨fun ph hph => (h ph hph).1, fun ph hph ph' hph' k hk k' hk' heq => ?_⟩
    have hbyte := (h ph hph).2 k hk
    rw [heq, (h ph' hph').2 k' hk'] at hbyte
    exact (Option.some.inj hbyte).symm
  · intro h ph hph
    refine ⟨h.fits ph hph, fun k hk => Memories.byteAt_elfWrites ?_ (.inl ?_) hm⟩
    · intro w hw hcov
      obtain ⟨ph', hph', hw⟩ := List.mem_flatMap.1 hw
      obtain ⟨k', hk', heq, hbyte⟩ := byteAt_of_covers (hparts ph' hph') hw hcov
      rw [hbyte, h.agree ph hph ph' hph' k hk k' hk' heq]
    · obtain ⟨w, hw, hcov⟩ := exists_covers (hparts ph hph) hk
      have hacc := accepted_of_fits (h.fits ph hph) (Nat.zero_lt_of_lt hk) (hparts ph hph) hw
      exact ⟨w, List.mem_flatMap.2 ⟨ph, hph, hw⟩, hacc, hcov⟩

end

/-! ### The constructor -/

section

variable {δ : Type} {files : Files} {path : String} {devices : ℕ → δ} {vp : GamingCpuVp δ}
  {size : ℕ} {file : Vector Byte size}

theorem construct_iff (hpath : path ≠ "") (hfile : files path = some ⟨size, file⟩) :
    GamingCpuVp.construct files path devices = some (.ok vp) ↔
      ∃ ws r, doLoad file = some (ws, .ok r) ∧
        ∃ m, Memories.elfWrites {} ws = some m ∧
          vp = { ram := m.ram, bootrom := m.bootrom, state := { pc := r.entryPoint },
                 devices } := by
  unfold GamingCpuVp.construct loadElf
  rw [if_neg hpath, hfile]
  dsimp only
  rw [loadElfFromMemory]
  cases hload : doLoad file with
  | none => exact iff_of_false nofun fun ⟨_, _, h, _⟩ => nomatch h
  | some x =>
    obtain ⟨ws, result⟩ := x
    obtain ⟨m, hm⟩ := Memories.exists_elfWrites {} ws
    change ((some (Memories.elfWrites {} ws, result)).bind _) = _ ↔ _
    rw [hm]
    cases result with
    | error e => exact iff_of_false nofun fun ⟨_, _, h, _⟩ => nomatch h
    | ok r =>
      constructor
      · intro h
        cases h
        exact ⟨ws, r, rfl, m, hm, rfl⟩
      · rintro ⟨ws', r', h, m', hm', rfl⟩
        cases h
        cases hm.symm.trans hm'
        rfl

/-- **No segment is lost** when the platform is built, exactly if each of them fits into one memory
and overlapping ones agree. -/
theorem no_segment_lost_iff (hpath : path ≠ "") (hfile : files path = some ⟨size, file⟩)
    (h : GamingCpuVp.construct files path devices = some (.ok vp)) :
    NoSegmentLost file vp.toMemories ↔ Placed file := by
  obtain ⟨ws, r, hload, m, hm, rfl⟩ := (construct_iff hpath hfile).1 h
  exact noSegmentLost_iff hload hm

/-- The entry point in the header of a file. -/
def entryPoint (file : Vector Byte size) : Option Word :=
  match checkHeader file with
  | some (.ok eh) => some eh.eEntry
  | _ => none

/-- The pc of the first iteration is the entry point of the program, or the reset pc. -/
def StartsAtEntry (files : Files) (path : String) (vp : GamingCpuVp δ) : Prop :=
  if path = "" then vp.start.state.pc = ramBase
  else ∃ x, files path = some x ∧ entryPoint x.2 = some vp.start.state.pc

/-- The thread sets the pc that the constructor has set before. -/
theorem start_pc (h : GamingCpuVp.construct files path devices = some (.ok vp)) :
    vp.start.state.pc = ramBase := by
  by_cases hpath : path = ""
  · subst hpath
    cases h
    rfl
  · cases hfile : files path with
    | none =>
      unfold GamingCpuVp.construct loadElf at h
      rw [if_neg hpath, hfile] at h
      cases h
    | some x =>
      obtain ⟨ws, r, -, m, -, rfl⟩ := (construct_iff hpath hfile).1 h
      rfl

/-- **Execution starts at the entry point** exactly without a program, or where the entry point is
the start of the RAM. -/
theorem starts_at_entry_iff (h : GamingCpuVp.construct files path devices = some (.ok vp)) :
    StartsAtEntry files path vp ↔
      path = "" ∨ ∃ x, files path = some x ∧ entryPoint x.2 = some ramBase := by
  rw [StartsAtEntry, start_pc h]
  by_cases hpath : path = ""
  · rw [if_pos hpath]
    exact iff_of_true rfl (.inl hpath)
  · rw [if_neg hpath, or_iff_right hpath]

/-- The constructor succeeds on every file that the loader accepts. -/
theorem exists_construct (devices : ℕ → δ) (hpath : path ≠ "")
    (hfile : files path = some ⟨size, file⟩) (hload : (doLoad file).any fun x => x.2.isOk) :
    ∃ vp, GamingCpuVp.construct files path devices = some (.ok vp) := by
  cases hdo : doLoad file with
  | none =>
    rw [hdo] at hload
    cases hload
  | some x =>
    obtain ⟨ws, result⟩ := x
    cases result with
    | error e =>
      rw [hdo] at hload
      cases hload
    | ok r =>
      obtain ⟨m, hm⟩ := Memories.exists_elfWrites {} ws
      exact ⟨_, (construct_iff hpath hfile).2 ⟨ws, r, hdo, m, hm, rfl⟩⟩

end

theorem placed_of_singleton {size : ℕ} {file : Vector Byte size} {ph : Elf32Phdr}
    (hph : ptLoads file = [ph]) (hfits : ph.Fits) : Placed file := by
  refine ⟨fun ph' h => ?_, fun ph₁ h₁ ph₂ h₂ k hk k' hk' heq => ?_⟩
  · rw [hph] at h
    cases List.mem_singleton.1 h
    exact hfits
  · rw [hph] at h₁ h₂
    cases List.mem_singleton.1 h₁
    cases List.mem_singleton.1 h₂
    have hdist := toNat_add_sub ph.pPaddr (hk.trans ph.imageLen_lt)
    rw [heq, toNat_add_sub _ (hk'.trans ph.imageLen_lt)] at hdist
    rw [hdist]

/-! ### Examples -/

/-- An executable with one segment of 16 bytes at `paddr`, 8 of them in the file. -/
def minimalElf (entry paddr : Word) : Vector Byte 92 :=
  wordsBuf [0x464C457F, 0x00010101, 0, 0, 0x00F30002, 1, entry, 52, 0, 0, 0x00200034, 1, 0,
    1, 84, paddr, paddr, 8, 16, 5, 0, 0x02A00093, 0x00100073] le_rfl

/-- A host with one file. -/
def oneFile {size : ℕ} (file : Vector Byte size) : Files :=
  fun path => if path = "a.elf" then some ⟨size, file⟩ else none

theorem oneFile_eq {size : ℕ} (file : Vector Byte size) :
    oneFile file "a.elf" = some ⟨size, file⟩ := rfl

/-- A segment at the start of the RAM is loaded. -/
theorem no_segment_lost_ram : ∃ vp : GamingCpuVp Unit,
    GamingCpuVp.construct (oneFile (minimalElf ramBase ramBase)) "a.elf" (fun _ => ()) =
      some (.ok vp) ∧ NoSegmentLost (minimalElf ramBase ramBase) vp.toMemories := by
  obtain ⟨vp, hvp⟩ := exists_construct (fun _ => ()) (by decide)
    (oneFile_eq (minimalElf ramBase ramBase)) (by decide +kernel)
  have hph : ptLoads (minimalElf ramBase ramBase) = [⟨1, 84, ramBase, 8, 16⟩] := by
    decide +kernel
  refine ⟨vp, hvp, (no_segment_lost_iff (by decide) (oneFile_eq _) hvp).2 ?_⟩
  exact placed_of_singleton hph (.inr (.inl (by decide)))

/-- A segment in the on-chip SRAM of the memory map is dropped without an error. -/
theorem not_no_segment_lost_sram : ∃ vp : GamingCpuVp Unit,
    GamingCpuVp.construct (oneFile (minimalElf ramBase sramBase)) "a.elf" (fun _ => ()) =
      some (.ok vp) ∧ ¬ NoSegmentLost (minimalElf ramBase sramBase) vp.toMemories := by
  obtain ⟨vp, hvp⟩ := exists_construct (fun _ => ()) (by decide)
    (oneFile_eq (minimalElf ramBase sramBase)) (by decide +kernel)
  have hph : ⟨1, 84, sramBase, 8, 16⟩ ∈ ptLoads (minimalElf ramBase sramBase) := by
    decide +kernel
  refine ⟨vp, hvp, fun h => ?_⟩
  rcases (h _ hph).1 with h0 | h | h
  · exact absurd h0 (by decide)
  · exact absurd h.1 (by decide)
  · exact absurd h.2 (by decide)

/-- A program with its entry point at the start of the RAM starts there. -/
theorem starts_at_entry_ram : ∃ vp : GamingCpuVp Unit,
    GamingCpuVp.construct (oneFile (minimalElf ramBase ramBase)) "a.elf" (fun _ => ()) =
      some (.ok vp) ∧ StartsAtEntry (oneFile (minimalElf ramBase ramBase)) "a.elf" vp := by
  obtain ⟨vp, hvp⟩ := exists_construct (fun _ => ()) (by decide)
    (oneFile_eq (minimalElf ramBase ramBase)) (by decide +kernel)
  exact ⟨vp, hvp, (starts_at_entry_iff hvp).2 (.inr ⟨_, oneFile_eq _, by decide +kernel⟩)⟩

/-- The thread of the ISS starts at the reset pc, whatever the entry point is. -/
theorem not_starts_at_entry : ∃ vp : GamingCpuVp Unit,
    GamingCpuVp.construct (oneFile (minimalElf 0x80000004 ramBase)) "a.elf" (fun _ => ()) =
      some (.ok vp) ∧ ¬ StartsAtEntry (oneFile (minimalElf 0x80000004 ramBase)) "a.elf" vp := by
  obtain ⟨vp, hvp⟩ := exists_construct (fun _ => ()) (by decide)
    (oneFile_eq (minimalElf 0x80000004 ramBase)) (by decide +kernel)
  refine ⟨vp, hvp, fun h => ?_⟩
  rw [StartsAtEntry, start_pc hvp] at h
  obtain ⟨x, hx, hentry⟩ := h
  cases hx
  revert hentry
  decide +kernel

end VirtualSoC
