import VirtualSoC.Util.ElfLoader

/-!
# What the ELF loader reads

The loop reads one program header after the other, until a segment is refused.  Its checks bound
the reads, except for headers shorter than the 32 bytes copied and for 32-bit sums that wrap around
(`load_reads_inside_iff`).
-/

namespace VirtualSoC

/-- The loader refuses the segment. -/
def Elf32Phdr.Refused (ph : Elf32Phdr) (size : ℕ) : Prop :=
  ph.pType = ptLoad ∧ ph.exceeds size = true

variable {size : ℕ} (file : Vector Byte size) (eh : Elf32Ehdr)

/-! ### The header -/

/-- The checks in front of the loop read inside the file. -/
theorem exists_checkHeader : ∃ x, checkHeader file = some x := by
  unfold checkHeader
  split
  · exact ⟨_, rfl⟩
  next h =>
    cases hread : Buffer.read file 0 Elf32Ehdr.size with
    | none => exact absurd (Buffer.read_eq_none_iff.1 hread) (by omega)
    | some buf => exact ⟨_, rfl⟩

variable {file eh}

/-- An accepted program header table lies in the file, by the length that the header gives. -/
theorem phEnd_le (h : checkHeader file = some (.ok eh)) :
    eh.ePhoff.toNat + eh.ePhnum.toNat * eh.ePhentsize.toNat ≤ size := by
  unfold checkHeader at h
  split at h
  · cases h
  · obtain ⟨buf, -, hx⟩ := Option.map_eq_some_iff.1 h
    dsimp only at hx
    cases hv : validateHeader (Elf32Ehdr.ofBytes buf) with
    | error e =>
      rw [hv] at hx
      cases hx
    | ok u =>
      rw [hv] at hx
      change (if _ > size then _ else _) = _ at hx
      split at hx
      · cases hx
      next hle =>
        cases hx
        exact not_lt.1 hle

/-! ### One round of the loop -/

/-- A round of the loop reads inside the file. -/
def EntryInside (file : Vector Byte size) (eh : Elf32Ehdr) (i : ℕ) : Prop :=
  ∃ ph, programHeader file eh i = some ph ∧
    (ph.pType = ptLoad → ph.exceeds size = false → (filePart file ph).isSome)

theorem loadSegments_succ_isSome (n i : ℕ) (r : ElfLoadResult) :
    (loadSegments file eh (n + 1) i r).isSome ↔
      EntryInside file eh i ∧ ∀ ph ∈ programHeader file eh i, ¬ ph.Refused size →
        (loadSegments file eh n (i + 1) (if ph.pType ≠ ptLoad then r else r.add ph)).isSome := by
  rw [loadSegments, EntryInside]
  cases hph : programHeader file eh i with
  | none => simp
  | some ph =>
    by_cases hload : ph.pType = ptLoad
    · cases hexc : ph.exceeds size with
      | true => simp [hload, hexc, Elf32Phdr.Refused]
      | false =>
        cases hpart : filePart file ph with
        | none => simp [hload, hexc, hpart]
        | some part =>
          cases hrest : loadSegments file eh n (i + 1) (r.add ph) <;>
            simp [hload, hexc, hpart, hrest, Elf32Phdr.Refused]
    · simp [hload, Elf32Phdr.Refused]

/-- The loop reads inside the file if every round does that no refused segment precedes. -/
theorem loadSegments_isSome_iff (n i : ℕ) (r : ElfLoadResult) :
    (loadSegments file eh n i r).isSome ↔
      ∀ k < n, (∀ j < k, ∀ ph ∈ programHeader file eh (i + j), ¬ ph.Refused size) →
        EntryInside file eh (i + k) := by
  induction n generalizing i r with
  | zero => simp [loadSegments]
  | succ n ih =>
    rw [loadSegments_succ_isSome]
    constructor
    · rintro ⟨hentry, hrest⟩ k hk hpre
      cases k with
      | zero => exact hentry
      | succ k =>
        obtain ⟨ph, hph, -⟩ := hentry
        have hsome := hrest ph hph (hpre 0 (Nat.succ_pos k) ph hph)
        have hk' := (ih _ _).1 hsome k (by omega) fun j hj ph hph =>
          hpre (j + 1) (by omega) ph (by rwa [← Nat.add_assoc, Nat.add_right_comm])
        rwa [Nat.add_right_comm] at hk'
    · intro h
      refine ⟨h 0 (Nat.succ_pos n) nofun, fun ph hph href => (ih _ _).2 fun k hk hpre => ?_⟩
      rw [Nat.add_right_comm]
      refine h (k + 1) (by omega) fun j hj => ?_
      cases j with
      | zero =>
        intro ph' hph'
        cases hph.symm.trans hph'
        exact href
      | succ j =>
        have hj' := hpre j (by omega)
        rwa [Nat.add_right_comm] at hj'

/-! ### What the checks miss -/

/-- The checks suffice for program header `i`. -/
structure EntrySound (file : Vector Byte size) (eh : Elf32Ehdr) (i : ℕ) : Prop where
  /-- The product of two `int`s stays in range. -/
  index : i * eh.ePhentsize.toNat < 2 ^ 31
  /-- Where the entries are shorter than the bytes copied, these lie in the file all the same. -/
  entry : eh.ePhentsize.toNat < Elf32Phdr.size →
    eh.ePhoff.toNat + i * eh.ePhentsize.toNat + Elf32Phdr.size ≤ size
  /-- Where the sum of offset and size wraps around, the segment is refused all the same, or the
  file is that long. -/
  segment : ∀ ph ∈ programHeader file eh i, ph.pType = ptLoad →
    2 ^ 32 ≤ ph.pOffset.toNat + ph.pFilesz.toNat →
      ph.exceeds size = true ∨ ph.pOffset.toNat + ph.pFilesz.toNat ≤ size

theorem programHeader_isSome_iff (i : ℕ) :
    (∃ ph, programHeader file eh i = some ph) ↔ i * eh.ePhentsize.toNat < 2 ^ 31 ∧
      eh.ePhoff.toNat + i * eh.ePhentsize.toNat + Elf32Phdr.size ≤ size := by
  unfold programHeader
  split
  next h =>
    cases hread : Buffer.read file (eh.ePhoff.toNat + i * eh.ePhentsize.toNat) Elf32Phdr.size with
    | none =>
      have hlt := Buffer.read_eq_none_iff.1 hread
      exact iff_of_false nofun fun hle => absurd hle.2 (by omega)
    | some buf =>
      have hge : ¬ size < eh.ePhoff.toNat + i * eh.ePhentsize.toNat + Elf32Phdr.size :=
        fun hlt => nomatch hread.symm.trans (Buffer.read_eq_none_iff.2 hlt)
      exact iff_of_true ⟨_, rfl⟩ ⟨h, by omega⟩
  next h => exact iff_of_false nofun fun hle => h hle.1

theorem filePart_isSome_iff (ph : Elf32Phdr) :
    (filePart file ph).isSome ↔
      ph.pFilesz = 0 ∨ ph.pOffset.toNat + ph.pFilesz.toNat ≤ size := by
  unfold filePart
  split
  next h =>
    have hne : ph.pFilesz ≠ 0 := by
      rintro h0
      rw [h0] at h
      exact absurd h (by decide)
    have hread : Buffer.read file ph.pOffset.toNat ph.pFilesz.toNat = none ↔ _ :=
      Buffer.read_eq_none_iff
    rw [or_iff_right hne, Option.isSome_map, ← not_lt, ← hread]
    cases Buffer.read file ph.pOffset.toNat ph.pFilesz.toNat <;> simp
  next h =>
    have h0 : ph.pFilesz = 0 := by
      apply BitVec.eq_of_toNat_eq
      have hle := mt BitVec.lt_def.2 h
      change ¬ 0 < ph.pFilesz.toNat at hle
      change ph.pFilesz.toNat = 0
      omega
    exact iff_of_true rfl (.inl h0)

/-- A round that the checks suffice for reads inside the file. -/
theorem entryInside_iff {i : ℕ} (h : checkHeader file = some (.ok eh))
    (hi : i < eh.ePhnum.toNat) : EntryInside file eh i ↔ EntrySound file eh i := by
  constructor
  · rintro ⟨ph, hph, hpart⟩
    obtain ⟨hindex, hentry⟩ := (programHeader_isSome_iff i).1 ⟨ph, hph⟩
    refine ⟨hindex, fun _ => hentry, fun ph' hph' hload hwrap => ?_⟩
    cases hph.symm.trans hph'
    cases hexc : ph.exceeds size with
    | true => exact .inl rfl
    | false =>
      rcases (filePart_isSome_iff ph).1 (hpart hload hexc) with h0 | hle
      · have hlt := ph.pOffset.isLt
        rw [h0] at hwrap
        change 2 ^ 32 ≤ ph.pOffset.toNat + 0 at hwrap
        omega
      · exact .inr hle
  · rintro ⟨hindex, hentry, hseg⟩
    have hle : eh.ePhoff.toNat + i * eh.ePhentsize.toNat + Elf32Phdr.size ≤ size := by
      by_cases hsmall : eh.ePhentsize.toNat < Elf32Phdr.size
      · exact hentry hsmall
      · have hend := phEnd_le h
        have hmul := Nat.mul_le_mul_right eh.ePhentsize.toNat hi
        rw [Nat.succ_mul] at hmul
        omega
    obtain ⟨ph, hph⟩ := (programHeader_isSome_iff i).2 ⟨hindex, hle⟩
    refine ⟨ph, hph, fun hload hexc => (filePart_isSome_iff ph).2 (.inr ?_)⟩
    by_cases hwrap : 2 ^ 32 ≤ ph.pOffset.toNat + ph.pFilesz.toNat
    · exact (hseg ph hph hload hwrap).resolve_left (by rw [hexc]; nofun)
    · have hsum := of_decide_eq_false hexc
      rw [BitVec.toNat_add, Nat.mod_eq_of_lt (not_le.1 hwrap)] at hsum
      omega

/-- The checks of the loader suffice for every program header that it comes to. -/
def ReadsSound (file : Vector Byte size) : Prop :=
  ∀ eh, checkHeader file = some (.ok eh) → ∀ i < eh.ePhnum.toNat,
    (∀ j < i, ∀ ph ∈ programHeader file eh j, ¬ ph.Refused size) → EntrySound file eh i

/-- **The loader reads only the file** exactly when its checks suffice. -/
theorem load_reads_inside_iff (file : Vector Byte size) :
    (doLoad file).isSome ↔ ReadsSound file := by
  obtain ⟨x, hx⟩ := exists_checkHeader file
  rw [doLoad, hx, ReadsSound]
  cases x with
  | error e => exact iff_of_true rfl fun eh heh => nomatch hx.symm.trans heh
  | ok eh =>
    change (loadSegments file eh eh.ePhnum.toNat 0 _).isSome ↔ _
    rw [loadSegments_isSome_iff]
    constructor
    · intro h eh' heh' i hi hpre
      cases hx.symm.trans heh'
      refine (entryInside_iff hx hi).1 ?_
      simpa using h i hi (by simpa using hpre)
    · intro h k hk hpre
      rw [Nat.zero_add]
      refine (entryInside_iff hx hk).2 (h eh hx k hk ?_)
      simpa using hpre

/-- An accepted header of 52 bytes, with one program header of length 0 behind the end of the
file. -/
def shortElf : Vector Byte 52 := Vector.ofFn fun i =>
  ([0x7F, 0x45, 0x4C, 0x46, 1, 1, 1, 0, 0, 0, 0, 0, 0, 0, 0, 0, 2, 0, 0xF3, 0, 1, 0, 0, 0,
    0, 0, 0, 0x80, 52, 0, 0, 0, 0, 0, 0, 0, 0, 0, 0, 0, 52, 0, 0, 0, 1, 0, 0, 0, 0, 0, 0, 0] :
      List Byte)[i.1]?.getD 0

/-- The 32 bytes of a program header are copied from behind the end of the file. -/
theorem not_load_reads_inside_short : ¬ (doLoad shortElf).isSome := by
  have h : doLoad shortElf = none := by decide +kernel
  rw [h]
  nofun

end VirtualSoC
