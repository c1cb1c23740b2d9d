import VirtualSoC.Util.ElfSpec

/-!
# The memory image of a program

The loadable segments of an ELF file and their memory images, and what a load that ends normally
hands to the callback: byte for byte the images of the segments (`exists_covers`,
`byteAt_of_covers`).
-/

namespace VirtualSoC

namespace Elf32Phdr

variable {size : ℕ} (file : Vector Byte size) (ph : Elf32Phdr)

/-- The number of bytes of the memory image. -/
def imageLen : ℕ := max ph.pFilesz.toNat ph.pMemsz.toNat

/-- Byte `k` of the memory image: the bytes in the file, then zeros. -/
def imageByte (k : ℕ) : Byte :=
  if k < ph.pFilesz.toNat then file[ph.pOffset.toNat + k]?.getD 0 else 0

theorem imageLen_lt : ph.imageLen < 2 ^ 32 := max_lt ph.pFilesz.isLt ph.pMemsz.isLt

end Elf32Phdr

section

variable {size : ℕ} (file : Vector Byte size)

/-- The loadable segments among `n` program headers from number `i` on. -/
def segments (eh : Elf32Ehdr) (n i : ℕ) : List Elf32Phdr :=
  ((List.range' i n).filterMap (programHeader file eh)).filter (·.pType = ptLoad)

/-- The loadable segments of a file. -/
def ptLoads : List Elf32Phdr :=
  match checkHeader file with
  | some (.ok eh) => segments file eh eh.ePhnum.toNat 0
  | _ => []

/-- The calls that a segment makes. -/
def segmentWrites (ph : Elf32Phdr) : List ElfWrite :=
  (filePart file ph).getD [] ++ bssPart ph

end

/-! ### The calls of a load -/

variable {size : ℕ} {file : Vector Byte size} {eh : Elf32Ehdr}

theorem segments_succ {n i : ℕ} {ph : Elf32Phdr} (hph : programHeader file eh i = some ph) :
    segments file eh (n + 1) i =
      if ph.pType = ptLoad then ph :: segments file eh n (i + 1)
      else segments file eh n (i + 1) := by
  unfold segments
  rw [List.range'_succ, List.filterMap_cons_some hph, List.filter_cons]
  simp

/-- A loop that ends normally has come to every segment. -/
theorem loadSegments_ok {n i : ℕ} {r r' : ElfLoadResult} {ws : List ElfWrite}
    (h : loadSegments file eh n i r = some (ws, .ok r')) :
    ws = (segments file eh n i).flatMap (segmentWrites file) ∧
      (∀ ph ∈ segments file eh n i, (filePart file ph).isSome) ∧
      r' = (segments file eh n i).foldl ElfLoadResult.add r := by
  induction n generalizing i r ws with
  | zero =>
    cases h
    exact ⟨rfl, nofun, rfl⟩
  | succ n ih =>
    obtain ⟨ph, hph, h⟩ := Option.bind_eq_some_iff.1 h
    rw [segments_succ hph]
    split at h
    next hne =>
      rw [if_neg hne]
      exact ih h
    next heq =>
      rw [if_pos (not_not.1 heq)]
      split at h
      · cases h
      · obtain ⟨part, hpart, h⟩ := Option.bind_eq_some_iff.1 h
        obtain ⟨⟨ws', result⟩, hrest, h⟩ := Option.bind_eq_some_iff.1 h
        cases h
        obtain ⟨rfl, hsome, rfl⟩ := ih hrest
        refine ⟨?_, ?_, rfl⟩
        · rw [List.flatMap_cons, segmentWrites, hpart, Option.getD_some]
        · intro ph' hmem
          rcases List.mem_cons.1 hmem with rfl | hmem
          · rw [hpart]
            rfl
          · exact hsome ph' hmem

theorem entryPoint_foldl (l : List Elf32Phdr) (r : ElfLoadResult) :
    (l.foldl ElfLoadResult.add r).entryPoint = r.entryPoint := by
  induction l generalizing r with
  | nil => rfl
  | cons ph l ih => exact ih (r.add ph)

theorem doLoad_ok {ws : List ElfWrite} {r : ElfLoadResult} (h : doLoad file = some (ws, .ok r)) :
    ∃ eh, checkHeader file = some (.ok eh) ∧ r.entryPoint = eh.eEntry ∧
      ws = (ptLoads file).flatMap (segmentWrites file) ∧
      ∀ ph ∈ ptLoads file, (filePart file ph).isSome := by
  obtain ⟨x, hx, h⟩ := Option.bind_eq_some_iff.1 h
  cases x with
  | error e => cases h
  | ok eh =>
    obtain ⟨hws, hsome, hr⟩ := loadSegments_ok h
    rw [ptLoads, hx]
    refine ⟨eh, rfl, ?_, hws, hsome⟩
    rw [hr, entryPoint_foldl]

/-! ### The bytes of a segment -/

namespace ElfWrite

variable (w : ElfWrite) (a : Word)

/-- The call writes the address. -/
def Covers : Prop := (a - w.paddr).toNat < w.len

instance : Decidable (w.Covers a) := inferInstanceAs (Decidable (_ < _))

/-- The byte for the address. -/
def byteAt : Option Byte := w.data[(a - w.paddr).toNat]?

end ElfWrite

theorem toNat_add_sub (a : Word) {k : ℕ} (hk : k < 2 ^ 32) :
    (a + BitVec.ofNat 32 k - a).toNat = k := by
  rw [BitVec.add_comm, BitVec.add_sub_cancel, BitVec.toNat_ofNat, Nat.mod_eq_of_lt hk]

variable {ph : Elf32Phdr} {part : List ElfWrite}

/-- The call for the part of a segment that is in the file. -/
theorem filePart_eq (h : filePart file ph = some part) :
    (ph.pFilesz = 0 ∧ part = []) ∨ ∃ data, part = [⟨ph.pPaddr, ph.pFilesz.toNat, data⟩] ∧
      ∀ k < ph.pFilesz.toNat, data[k]? = some (ph.imageByte file k) := by
  unfold filePart at h
  split at h
  next hpos =>
    obtain ⟨data, hread, rfl⟩ := Option.map_eq_some_iff.1 h
    refine .inr ⟨data, rfl, fun k hk => ?_⟩
    have hfile := Buffer.getElem?_of_read hread k
    rw [if_pos hk, Vector.getElem?_eq_getElem hk] at hfile
    rw [Elf32Phdr.imageByte, if_pos hk, ← hfile, Vector.getElem?_eq_getElem hk]
    rfl
  next hzero =>
    cases h
    refine .inl ⟨BitVec.eq_of_toNat_eq ?_, rfl⟩
    have hle := mt BitVec.lt_def.2 hzero
    exact Nat.eq_zero_of_not_pos hle

theorem lt_memsz {k : ℕ} (hk : k < ph.imageLen) (hge : ¬ k < ph.pFilesz.toNat) :
    k < ph.pMemsz.toNat :=
  (lt_max_iff.1 hk).resolve_left hge

theorem exists_covers (hpart : (filePart file ph).isSome) {k : ℕ} (hk : k < ph.imageLen) :
    ∃ w ∈ segmentWrites file ph, w.Covers (ph.pPaddr + BitVec.ofNat 32 k) := by
  obtain ⟨part, hpart⟩ := Option.isSome_iff_exists.1 hpart
  rw [segmentWrites, hpart, Option.getD_some]
  have hk32 := hk.trans ph.imageLen_lt
  by_cases hfile : k < ph.pFilesz.toNat
  · rcases filePart_eq hpart with ⟨h0, -⟩ | ⟨data, rfl, -⟩
    · rw [h0] at hfile
      cases hfile
    · refine ⟨_, List.mem_append_left _ (List.mem_singleton_self _), ?_⟩
      rw [ElfWrite.Covers, toNat_add_sub _ hk32]
      exact hfile
  · have hmem := lt_memsz hk hfile
    have hgt : ph.pMemsz > ph.pFilesz := BitVec.lt_def.2 (by omega)
    rw [bssPart, if_pos hgt]
    refine ⟨_, List.mem_append_right _ (List.mem_singleton_self _), ?_⟩
    simp only [ElfWrite.Covers, BitVec.toNat_sub, BitVec.toNat_add, BitVec.toNat_ofNat]
    have hp := ph.pPaddr.isLt
    have hm := ph.pMemsz.isLt
    omega

theorem byteAt_of_covers (hpart : (filePart file ph).isSome) {w : ElfWrite}
    (hw : w ∈ segmentWrites file ph) {a : Word} (hcov : w.Covers a) :
    ∃ k < ph.imageLen, a = ph.pPaddr + BitVec.ofNat 32 k ∧
      w.byteAt a = some (ph.imageByte file k) := by
  obtain ⟨part, hpart⟩ := Option.isSome_iff_exists.1 hpart
  rw [segmentWrites, hpart, Option.getD_some] at hw
  rcases List.mem_append.1 hw with hw | hw
  · rcases filePart_eq hpart with ⟨-, rfl⟩ | ⟨data, rfl, hdata⟩
    · cases hw
    · cases List.mem_singleton.1 hw
      refine ⟨(a - ph.pPaddr).toNat, lt_max_of_lt_left hcov, ?_, hdata _ hcov⟩
      rw [BitVec.ofNat_toNat, BitVec.setWidth_eq, add_sub_cancel]
  · unfold bssPart at hw
    split at hw
    next hgt =>
      cases List.mem_singleton.1 hw
      have hlt := BitVec.lt_def.1 hgt
      change (a - (ph.pPaddr + ph.pFilesz)).toNat < (ph.pMemsz - ph.pFilesz).toNat at hcov
      have hcov' := hcov
      rw [BitVec.toNat_sub_of_le (BitVec.le_def.2 hlt.le)] at hcov'
      refine ⟨ph.pFilesz.toNat + (a - (ph.pPaddr + ph.pFilesz)).toNat,
        lt_max_of_lt_right (by omega), ?_, ?_⟩
      · rw [BitVec.ofNat_add, BitVec.ofNat_toNat, BitVec.ofNat_toNat, BitVec.setWidth_eq,
          BitVec.setWidth_eq, ← BitVec.add_assoc, add_sub_cancel]
      · rw [Elf32Phdr.imageByte, if_neg (by omega), ElfWrite.byteAt]
        exact Vector.getElem?_eq_some_iff.2 ⟨hcov, Vector.getElem_replicate _⟩
    next => cases hw

end VirtualSoC
