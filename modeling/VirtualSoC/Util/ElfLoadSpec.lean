import Mathlib.Data.List.Pairwise
import Mathlib.Order.Bounds.Basic
import VirtualSoC.Util.ElfReject

/-!
# The memory that a load builds

What a well-formed ELF file describes (`WellFormedElf`, `ImageBuilt`), and that the loader builds it
over every callback that stores bytes (`loadsImage_iff`).  The one thing in its way is the offset of
a program header, which the loop computes as a product of two `int`s: a file of 2 GiB or more can
have a table in which this overflows.
-/

namespace VirtualSoC

variable {size : ℕ}

/-! ### Well-formed files -/

section

variable (file : Vector Byte size) (eh : Elf32Ehdr)

/-- Program header `i`, as the file has it. -/
def headerAt (i : ℕ) : Option Elf32Phdr :=
  (Buffer.read file (eh.ePhoff.toNat + i * eh.ePhentsize.toNat) Elf32Phdr.size).map
    Elf32Phdr.ofBytes

/-- The PT_LOAD headers of the file. -/
def loadHeaders : List Elf32Phdr :=
  ((List.range eh.ePhnum.toNat).filterMap (headerAt file eh)).filter (·.pType = ptLoad)

/-- The segment has the address. -/
def Elf32Phdr.Holds (ph : Elf32Phdr) (a : Word) : Prop :=
  ph.pPaddr.toNat ≤ a.toNat ∧ a.toNat < ph.pPaddr.toNat + ph.pMemsz.toNat

/-- The file passes all checks, no sum wraps around, and the segments do not overlap. -/
structure WellFormedElf : Prop where
  header : checkHeader file = some (.ok eh)
  entsize : Elf32Phdr.size ≤ eh.ePhentsize.toNat
  inFile : ∀ ph ∈ loadHeaders file eh,
    ph.pOffset.toNat + ph.pFilesz.toNat < 2 ^ 32 ∧ ph.pOffset.toNat + ph.pFilesz.toNat ≤ size
  filesz_le : ∀ ph ∈ loadHeaders file eh, ph.pFilesz.toNat ≤ ph.pMemsz.toNat
  range : ∀ ph ∈ loadHeaders file eh, ph.pPaddr.toNat + ph.pMemsz.toNat < 2 ^ 32
  disjoint : (loadHeaders file eh).Pairwise fun ph ph' => ∀ a, ¬ (ph.Holds a ∧ ph'.Holds a)

/-! ### What the loader is to do -/

/-- The callback stores the bytes of a call at consecutive addresses. -/
def Stores {σ : Type} (write : ElfWrite → σ → σ) (view : σ → Word → Byte) : Prop :=
  ∀ w s a, w.paddr.toNat + w.len ≤ 2 ^ 32 → view (write w s) a = (w.byteAt a).getD (view s a)

/-- The memory and the result after the load: `m` before, `m'` after it. -/
structure ImageBuilt (m m' : Word → Byte) (r : ElfLoadResult) : Prop where
  inside : ∀ ph ∈ loadHeaders file eh, ∀ k < ph.pMemsz.toNat,
    m' (ph.pPaddr + BitVec.ofNat 32 k) = ph.imageByte file k
  outside : ∀ a, (∀ ph ∈ loadHeaders file eh, ¬ ph.Holds a) → m' a = m a
  entryPoint : r.entryPoint = eh.eEntry
  segmentsLoaded : r.segmentsLoaded = (loadHeaders file eh).length
  loadMin : loadHeaders file eh ≠ [] →
    IsLeast {p | ∃ ph ∈ loadHeaders file eh, ph.pPaddr.toNat = p} r.loadMin.toNat
  loadMax : loadHeaders file eh ≠ [] →
    IsGreatest {p | ∃ ph ∈ loadHeaders file eh, ph.pPaddr.toNat + ph.pMemsz.toNat = p}
      r.loadMax.toNat
  nothing : loadHeaders file eh = [] → r.loadMin = 0xFFFFFFFF ∧ r.loadMax = 0

/-- The second file has the PT_LOAD headers of the first in another order, and the same entry and
segments. -/
structure Reordered {size' : ℕ} (file' : Vector Byte size') (eh' : Elf32Ehdr) : Prop where
  entry : eh'.eEntry = eh.eEntry
  perm : (loadHeaders file' eh').Perm (loadHeaders file eh)
  bytes : ∀ ph ∈ loadHeaders file eh, ∀ k < ph.pFilesz.toNat,
    file'[ph.pOffset.toNat + k]? = file[ph.pOffset.toNat + k]?

/-- The load builds the image over every storing callback, and what it does is what it does for a
reordered file. -/
structure LoadsImage : Prop where
  image : ∀ {σ : Type} (write : ElfWrite → σ → σ) (view : σ → Word → Byte), Stores write view →
    ∀ s, ∃ s' r, loadElfFromMemory file write s = some (s', .ok r) ∧
      ImageBuilt file eh (view s) (view s') r
  order : ∀ {size' : ℕ} (file' : Vector Byte size') (eh' : Elf32Ehdr), WellFormedElf file' eh' →
    Reordered file eh file' eh' → ∀ {σ : Type} (write : ElfWrite → σ → σ) (view : σ → Word → Byte),
      Stores write view → ∀ s s' x, loadElfFromMemory file' write s = some (s', x) →
        ∃ s'', loadElfFromMemory file write s = some (s'', x) ∧ view s'' = view s'

end

variable {file : Vector Byte size} {eh : Elf32Ehdr}

/-! ### The loop over a well-formed file -/

theorem mem_loadHeaders {ph : Elf32Phdr} {i : ℕ} (hi : i < eh.ePhnum.toNat)
    (hph : headerAt file eh i = some ph) (ht : ph.pType = ptLoad) : ph ∈ loadHeaders file eh :=
  List.mem_filter.2 ⟨List.mem_filterMap.2 ⟨i, List.mem_range.2 hi, hph⟩, by simpa using ht⟩

theorem headerAt_of_programHeader {ph : Elf32Phdr} {i : ℕ}
    (h : programHeader file eh i = some ph) : headerAt file eh i = some ph := by
  unfold programHeader at h
  split at h
  · exact h
  · cases h

theorem WellFormedElf.not_refused (h : WellFormedElf file eh) {ph : Elf32Phdr} {i : ℕ}
    (hi : i < eh.ePhnum.toNat) (hph : programHeader file eh i = some ph) : ¬ ph.Refused size := by
  rintro ⟨ht, hexc⟩
  have hmem := mem_loadHeaders hi (headerAt_of_programHeader hph) ht
  obtain ⟨hwrap, hle⟩ := h.inFile ph hmem
  have hgt : (ph.pOffset + ph.pFilesz).toNat > size := of_decide_eq_true hexc
  rw [BitVec.toNat_add, Nat.mod_eq_of_lt hwrap] at hgt
  omega

theorem doLoad_of_header (h : checkHeader file = some (.ok eh)) :
    doLoad file = loadSegments file eh eh.ePhnum.toNat 0 { entryPoint := eh.eEntry } := by
  rw [doLoad, h]
  rfl

/-- The loop over a well-formed file has a result as long as no offset overflows. -/
theorem WellFormedElf.doLoad_isSome_iff (h : WellFormedElf file eh) :
    (doLoad file).isSome ↔ ∀ i < eh.ePhnum.toNat, i * eh.ePhentsize.toNat < 2 ^ 31 := by
  rw [doLoad_of_header h.header, loadSegments_isSome_iff]
  simp only [Nat.zero_add]
  constructor
  · intro hall i hi
    have hinside := hall i hi fun j hj ph hph => h.not_refused (hj.trans hi) hph
    exact ((entryInside_iff h.header hi).1 hinside).index
  · intro hindex i hi _
    refine (entryInside_iff h.header hi).2 ⟨hindex i hi, fun hlt => ?_, ?_⟩
    · exact absurd h.entsize (not_le.2 hlt)
    · intro ph hph ht hwrap
      have hmem := mem_loadHeaders hi (headerAt_of_programHeader hph) ht
      exact absurd (h.inFile ph hmem).1 (not_lt.2 hwrap)

theorem segments_eq (hindex : ∀ i < eh.ePhnum.toNat, i * eh.ePhentsize.toNat < 2 ^ 31) :
    segments file eh eh.ePhnum.toNat 0 = loadHeaders file eh := by
  unfold segments loadHeaders
  rw [← List.range_eq_range']
  congr 1
  refine List.filterMap_congr fun i hi => ?_
  exact if_pos (hindex i (List.mem_range.1 hi))

theorem WellFormedElf.doLoad_eq (h : WellFormedElf file eh)
    (hindex : ∀ i < eh.ePhnum.toNat, i * eh.ePhentsize.toNat < 2 ^ 31) :
    doLoad file = some ((loadHeaders file eh).flatMap (segmentWrites file),
        .ok ((loadHeaders file eh).foldl ElfLoadResult.add { entryPoint := eh.eEntry })) ∧
      ∀ ph ∈ loadHeaders file eh, (filePart file ph).isSome := by
  obtain ⟨⟨ws, res⟩, hload⟩ := Option.isSome_iff_exists.1 (h.doLoad_isSome_iff.2 hindex)
  cases res with
  | error e =>
    exfalso
    obtain ⟨l, hrefused, -⟩ := doLoad_error hload
    rcases hrefused with ⟨⟨e, he⟩, -⟩ | ⟨eh', heh', k, hk, ⟨ph, hph, href⟩, -, -⟩
    · cases h.header.symm.trans he
    · cases h.header.symm.trans heh'
      exact h.not_refused hk hph href
  | ok r =>
    have hloop := hload
    rw [doLoad_of_header h.header] at hloop
    obtain ⟨rfl, hpart, rfl⟩ := loadSegments_ok hloop
    rw [segments_eq hindex] at hload hpart
    exact ⟨hload, hpart⟩

/-! ### The memory -/

section Memory

variable {σ : Type} {write : ElfWrite → σ → σ} {view : σ → Word → Byte} {ws : List ElfWrite}
  {a : Word}

theorem view_write (hst : Stores write view) {w : ElfWrite} (hw : w.paddr.toNat + w.len ≤ 2 ^ 32)
    (s : σ) : view (write w s) a = if w.Covers a then (w.byteAt a).getD 0 else view s a := by
  rw [hst w s a hw, ElfWrite.byteAt]
  split
  next hcov => rw [Vector.getElem?_eq_getElem hcov, Option.getD_some, Option.getD_some]
  next hcov => rw [Vector.getElem?_eq_none (not_lt.1 hcov), Option.getD_none]

variable (hst : Stores write view) (hwrap : ∀ w ∈ ws, w.paddr.toNat + w.len ≤ 2 ^ 32)

include hst hwrap

theorem view_foldl_of_not_covers (h : ∀ w ∈ ws, ¬ w.Covers a) (s : σ) :
    view (ws.foldl (fun s w => write w s) s) a = view s a := by
  induction ws generalizing s with
  | nil => rfl
  | cons w ws ih =>
    rw [List.foldl_cons, ih (fun w' hw' => hwrap w' (List.mem_cons_of_mem w hw'))
      (fun w' hw' => h w' (List.mem_cons_of_mem w hw')),
      view_write hst (hwrap w List.mem_cons_self), if_neg (h w List.mem_cons_self)]

/-- An address for which all calls that cover it have the same byte. -/
theorem view_foldl_of_covers {b : Byte} (h : ∀ w ∈ ws, w.Covers a → w.byteAt a = some b)
    (hcov : ∃ w ∈ ws, w.Covers a) (s : σ) :
    view (ws.foldl (fun s w => write w s) s) a = b := by
  induction ws generalizing s with
  | nil =>
    obtain ⟨w, hw, -⟩ := hcov
    cases hw
  | cons w ws ih =>
    have hwrap' : ∀ w' ∈ ws, w'.paddr.toNat + w'.len ≤ 2 ^ 32 := fun w' hw' =>
      hwrap w' (List.mem_cons_of_mem w hw')
    rw [List.foldl_cons]
    by_cases hlater : ∃ w' ∈ ws, w'.Covers a
    · exact ih hwrap' (fun w' hw' => h w' (List.mem_cons_of_mem w hw')) hlater _
    · -- the call is the last one that covers the address
      have hnot : ∀ w' ∈ ws, ¬ w'.Covers a := fun w' hw' hc => hlater ⟨w', hw', hc⟩
      have hw : w.Covers a := by
        obtain ⟨w', hw', hc⟩ := hcov
        rcases List.mem_cons.1 hw' with rfl | hw'
        · exact hc
        · exact absurd hc (hnot w' hw')
      rw [view_foldl_of_not_covers hst hwrap' hnot, view_write hst (hwrap w List.mem_cons_self),
        if_pos hw, h w List.mem_cons_self hw, Option.getD_some]

end Memory

theorem WellFormedElf.segmentWrites_range (h : WellFormedElf file eh) {ph : Elf32Phdr}
    (hph : ph ∈ loadHeaders file eh) {w : ElfWrite} (hw : w ∈ segmentWrites file ph) :
    ph.pPaddr.toNat ≤ w.paddr.toNat ∧
      w.paddr.toNat + w.len ≤ ph.pPaddr.toNat + ph.pMemsz.toNat := by
  have hle := h.filesz_le ph hph
  have hrange := h.range ph hph
  rcases List.mem_append.1 hw with hw | hw
  · cases hpart : filePart file ph with
    | none =>
      rw [hpart] at hw
      cases hw
    | some part =>
      rw [hpart] at hw
      rcases filePart_eq hpart with ⟨-, rfl⟩ | ⟨data, rfl, -⟩
      · cases hw
      · cases List.mem_singleton.1 hw
        exact ⟨le_rfl, by dsimp only; omega⟩
  · unfold bssPart at hw
    split at hw
    · cases List.mem_singleton.1 hw
      dsimp only
      rw [BitVec.toNat_add, BitVec.toNat_sub_of_le (BitVec.le_def.2 hle),
        Nat.mod_eq_of_lt (by omega)]
      omega
    · cases hw

theorem Elf32Phdr.holds_add {ph : Elf32Phdr} (hrange : ph.pPaddr.toNat + ph.pMemsz.toNat < 2 ^ 32)
    {k : ℕ} (hk : k < ph.pMemsz.toNat) : ph.Holds (ph.pPaddr + BitVec.ofNat 32 k) := by
  have hadd : (ph.pPaddr + BitVec.ofNat 32 k).toNat = ph.pPaddr.toNat + k := by
    rw [BitVec.toNat_add, BitVec.toNat_ofNat]
    omega
  rw [Holds, hadd]
  omega

section Image

variable (h : WellFormedElf file eh)

include h

theorem WellFormedElf.imageLen {ph : Elf32Phdr} (hph : ph ∈ loadHeaders file eh) :
    ph.imageLen = ph.pMemsz.toNat :=
  max_eq_right (h.filesz_le ph hph)

/-- An address of a segment is at one place in its image, and in no other segment. -/
theorem WellFormedElf.imageByte_eq {ph ph' : Elf32Phdr} (hph : ph ∈ loadHeaders file eh)
    (hph' : ph' ∈ loadHeaders file eh) {k k' : ℕ} (hk : k < ph.pMemsz.toNat)
    (hk' : k' < ph'.pMemsz.toNat)
    (heq : ph.pPaddr + BitVec.ofNat 32 k = ph'.pPaddr + BitVec.ofNat 32 k') :
    ph.imageByte file k = ph'.imageByte file k' := by
  have hholds := ph.holds_add (h.range ph hph) hk
  have hholds' := ph'.holds_add (h.range ph' hph') hk'
  rw [← heq] at hholds'
  by_cases hne : ph = ph'
  · subst hne
    have hkk : BitVec.ofNat 32 k = BitVec.ofNat 32 k' := add_left_cancel heq
    have hm := ph.pMemsz.isLt
    have hnat := congrArg BitVec.toNat hkk
    rw [BitVec.toNat_ofNat, BitVec.toNat_ofNat, Nat.mod_eq_of_lt (by omega),
      Nat.mod_eq_of_lt (by omega)] at hnat
    rw [hnat]
  · have : Std.Symm fun ph ph' : Elf32Phdr => ∀ a, ¬ (ph.Holds a ∧ ph'.Holds a) :=
      ⟨fun _ _ hdis a hb => hdis a hb.symm⟩
    exact absurd ⟨hholds, hholds'⟩ (h.disjoint.forall hph hph' hne _)

theorem WellFormedElf.view_loaded (hpart : ∀ ph ∈ loadHeaders file eh, (filePart file ph).isSome)
    {σ : Type} {write : ElfWrite → σ → σ} {view : σ → Word → Byte} (hst : Stores write view)
    (s : σ) :
    (∀ ph ∈ loadHeaders file eh, ∀ k < ph.pMemsz.toNat,
      view (((loadHeaders file eh).flatMap (segmentWrites file)).foldl (fun s w => write w s) s)
        (ph.pPaddr + BitVec.ofNat 32 k) = ph.imageByte file k) ∧
    ∀ a, (∀ ph ∈ loadHeaders file eh, ¬ ph.Holds a) →
      view (((loadHeaders file eh).flatMap (segmentWrites file)).foldl (fun s w => write w s) s)
        a = view s a := by
  have hwrap : ∀ w ∈ (loadHeaders file eh).flatMap (segmentWrites file),
      w.paddr.toNat + w.len ≤ 2 ^ 32 := by
    intro w hw
    obtain ⟨ph, hph, hw⟩ := List.mem_flatMap.1 hw
    exact (h.segmentWrites_range hph hw).2.trans (h.range ph hph).le
  constructor
  · intro ph hph k hk
    refine view_foldl_of_covers hst hwrap ?_ ?_ s
    · intro w hw hcov
      obtain ⟨ph', hph', hw⟩ := List.mem_flatMap.1 hw
      obtain ⟨k', hk', heq, hbyte⟩ := byteAt_of_covers (hpart ph' hph') hw hcov
      rw [h.imageLen hph'] at hk'
      rw [hbyte, h.imageByte_eq hph hph' hk hk' heq]
    · rw [← h.imageLen hph] at hk
      obtain ⟨w, hw, hcov⟩ := exists_covers (hpart ph hph) hk
      exact ⟨w, List.mem_flatMap.2 ⟨ph, hph, hw⟩, hcov⟩
  · intro a hout
    refine view_foldl_of_not_covers hst hwrap (fun w hw hcov => ?_) s
    obtain ⟨ph, hph, hw⟩ := List.mem_flatMap.1 hw
    obtain ⟨k, hk, rfl, -⟩ := byteAt_of_covers (hpart ph hph) hw hcov
    rw [h.imageLen hph] at hk
    exact hout ph hph (ph.holds_add (h.range ph hph) hk)

end Image

/-! ### The result -/

theorem segmentsLoaded_foldl (l : List Elf32Phdr) (r : ElfLoadResult) :
    (l.foldl ElfLoadResult.add r).segmentsLoaded = r.segmentsLoaded + l.length := by
  induction l generalizing r with
  | nil => rfl
  | cons ph l ih =>
    rw [List.foldl_cons, ih, List.length_cons]
    exact Nat.add_right_comm r.segmentsLoaded 1 l.length

section Fold

variable {α β γ : Type*} [LinearOrder α] {f : β → α} {g : γ → α} {step : γ → β → γ} {l : List β}
  (hstep : ∀ c, ∀ b ∈ l, g (step c b) = min (f b) (g c))

include hstep

/-- A running minimum is a lower bound, and it is one of the values or the first one. -/
theorem foldl_min_spec (c : γ) :
    g (l.foldl step c) ≤ g c ∧ (∀ b ∈ l, g (l.foldl step c) ≤ f b) ∧
      (g (l.foldl step c) = g c ∨ ∃ b ∈ l, f b = g (l.foldl step c)) := by
  induction l generalizing c with
  | nil => exact ⟨le_rfl, nofun, .inl rfl⟩
  | cons b l ih =>
    have hb := hstep c b List.mem_cons_self
    obtain ⟨hle, hall, hin⟩ :=
      ih (fun c b' hb' => hstep c b' (List.mem_cons_of_mem b hb')) (step c b)
    rw [hb] at hle hin
    refine ⟨hle.trans (min_le_right _ _), fun b' hb' => ?_, ?_⟩
    · rcases List.mem_cons.1 hb' with rfl | hb'
      · exact hle.trans (min_le_left _ _)
      · exact hall b' hb'
    · rcases hin with hin | ⟨b', hb', heq⟩
      · rcases min_choice (f b) (g c) with hm | hm
        · exact .inr ⟨b, List.mem_cons_self, (hin.trans hm).symm⟩
        · exact .inl (hin.trans hm)
      · exact .inr ⟨b', List.mem_cons_of_mem b hb', heq⟩

/-- A running minimum whose first value nothing exceeds. -/
theorem isLeast_foldl (hl : l ≠ []) (c : γ) (hc : ∀ b ∈ l, f b ≤ g c) :
    IsLeast {x | ∃ b ∈ l, f b = x} (g (l.foldl step c)) := by
  obtain ⟨-, hall, hin⟩ := foldl_min_spec hstep c
  refine ⟨hin.elim (fun heq => ?_) id, ?_⟩
  · obtain ⟨b, hb⟩ := List.exists_mem_of_ne_nil l hl
    exact ⟨b, hb, le_antisymm ((hc b hb).trans heq.ge) (hall b hb)⟩
  · rintro x ⟨b, hb, rfl⟩
    exact hall b hb

end Fold

theorem loadMin_foldl (hl : loadHeaders file eh ≠ []) (e : Word) :
    IsLeast {p | ∃ ph ∈ loadHeaders file eh, ph.pPaddr.toNat = p}
      ((loadHeaders file eh).foldl ElfLoadResult.add { entryPoint := e }).loadMin.toNat := by
  refine isLeast_foldl (g := fun r : ElfLoadResult => r.loadMin.toNat) ?_ hl _ ?_
  · intro r ph _
    unfold ElfLoadResult.add
    dsimp only
    split
    next hlt => exact (min_eq_left (BitVec.lt_def.1 hlt).le).symm
    next hlt => exact (min_eq_right (not_lt.1 (mt BitVec.lt_def.2 hlt))).symm
  · intro ph _
    have hlt := ph.pPaddr.isLt
    change ph.pPaddr.toNat ≤ 0xFFFFFFFF
    omega

section Result

variable (h : WellFormedElf file eh)

include h

theorem WellFormedElf.loadMax (hl : loadHeaders file eh ≠ []) (e : Word) :
    IsGreatest {p | ∃ ph ∈ loadHeaders file eh, ph.pPaddr.toNat + ph.pMemsz.toNat = p}
      ((loadHeaders file eh).foldl ElfLoadResult.add { entryPoint := e }).loadMax.toNat := by
  -- the minimum in the dual order
  refine isLeast_foldl (α := ℕᵒᵈ) (g := fun r : ElfLoadResult => r.loadMax.toNat) ?_ hl _ ?_
  · intro r ph hph
    have hadd : (ph.pPaddr + ph.pMemsz).toNat = ph.pPaddr.toNat + ph.pMemsz.toNat := by
      rw [BitVec.toNat_add, Nat.mod_eq_of_lt (h.range ph hph)]
    change _ = max (ph.pPaddr.toNat + ph.pMemsz.toNat) r.loadMax.toNat
    unfold ElfLoadResult.add
    dsimp only
    rw [← hadd]
    split
    next hlt => exact (max_eq_left (BitVec.lt_def.1 hlt).le).symm
    next hlt => exact (max_eq_right (not_lt.1 (mt BitVec.lt_def.2 hlt))).symm
  · intro ph _
    change 0 ≤ ph.pPaddr.toNat + ph.pMemsz.toNat
    exact Nat.zero_le _

theorem WellFormedElf.load_spec
    (hindex : ∀ i < eh.ePhnum.toNat, i * eh.ePhentsize.toNat < 2 ^ 31) {σ : Type}
    {write : ElfWrite → σ → σ} {view : σ → Word → Byte} (hst : Stores write view) (s : σ) :
    ∃ s' r, loadElfFromMemory file write s = some (s', .ok r) ∧
      ImageBuilt file eh (view s) (view s') r := by
  obtain ⟨hload, hpart⟩ := h.doLoad_eq hindex
  obtain ⟨hinside, houtside⟩ := h.view_loaded hpart hst s
  refine ⟨_, _, by rw [loadElfFromMemory, hload]; rfl, hinside, houtside, ?_, ?_,
    fun hl => loadMin_foldl hl _, fun hl => h.loadMax hl _, fun hl => ?_⟩
  · exact entryPoint_foldl _ _
  · exact (segmentsLoaded_foldl _ _).trans (Nat.zero_add _)
  · rw [hl]
    exact ⟨rfl, rfl⟩

theorem WellFormedElf.index_of_load {σ : Type} {write : ElfWrite → σ → σ} {s : σ}
    {x : σ × Except String ElfLoadResult} (hload : loadElfFromMemory file write s = some x) :
    ∀ i < eh.ePhnum.toNat, i * eh.ePhentsize.toNat < 2 ^ 31 := by
  obtain ⟨y, hy, -⟩ := Option.map_eq_some_iff.1 hload
  exact h.doLoad_isSome_iff.1 (Option.isSome_of_eq_some hy)

end Result

/-! ### The order of the program headers -/

section Order

variable {size' : ℕ} {file' : Vector Byte size'} {eh' : Elf32Ehdr} {m m₁ m₂ : Word → Byte}
  {r₁ r₂ : ElfLoadResult}

/-- The bytes of a segment are those of the reordered file. -/
theorem Reordered.imageByte (hre : Reordered file eh file' eh') {ph : Elf32Phdr}
    (hph : ph ∈ loadHeaders file eh) (k : ℕ) : ph.imageByte file' k = ph.imageByte file k := by
  unfold Elf32Phdr.imageByte
  split
  next hk => rw [hre.bytes ph hph k hk]
  next => rfl

/-- The image determines the memory and the result. -/
theorem ImageBuilt.unique (hre : Reordered file eh file' eh')
    (h₁ : ImageBuilt file eh m m₁ r₁) (h₂ : ImageBuilt file' eh' m m₂ r₂) : m₁ = m₂ ∧ r₁ = r₂ := by
  have hmem (ph : Elf32Phdr) : ph ∈ loadHeaders file' eh' ↔ ph ∈ loadHeaders file eh :=
    hre.perm.mem_iff
  constructor
  · funext a
    by_cases hin : ∃ ph ∈ loadHeaders file eh, ph.Holds a
    · obtain ⟨ph, hph, hlow, hhigh⟩ := hin
      have hk : a.toNat - ph.pPaddr.toNat < ph.pMemsz.toNat := by omega
      have ha : a = ph.pPaddr + BitVec.ofNat 32 (a.toNat - ph.pPaddr.toNat) := by
        apply BitVec.eq_of_toNat_eq
        have hlt := a.isLt
        rw [BitVec.toNat_add, BitVec.toNat_ofNat]
        omega
      rw [ha, h₁.inside ph hph _ hk, h₂.inside ph ((hmem ph).2 hph) _ hk, hre.imageByte hph]
    · have hout : ∀ ph ∈ loadHeaders file eh, ¬ ph.Holds a := fun ph hph hh => hin ⟨ph, hph, hh⟩
      rw [h₁.outside a hout, h₂.outside a fun ph hph => hout ph ((hmem ph).1 hph)]
  · have hentry : r₁.entryPoint = r₂.entryPoint := by
      rw [h₁.entryPoint, h₂.entryPoint, hre.entry]
    have hcount : r₁.segmentsLoaded = r₂.segmentsLoaded := by
      rw [h₁.segmentsLoaded, h₂.segmentsLoaded, hre.perm.length_eq]
    have hbounds : r₁.loadMin = r₂.loadMin ∧ r₁.loadMax = r₂.loadMax := by
      by_cases hl : loadHeaders file eh = []
      · have hl' : loadHeaders file' eh' = [] := (hl ▸ hre.perm).eq_nil
        rw [(h₁.nothing hl).1, (h₁.nothing hl).2, (h₂.nothing hl').1, (h₂.nothing hl').2]
        exact ⟨rfl, rfl⟩
      · have hl' : loadHeaders file' eh' ≠ [] := fun hl' => hl (hl' ▸ hre.perm).symm.eq_nil
        have hmin := h₂.loadMin hl'
        have hmax := h₂.loadMax hl'
        simp only [hmem] at hmin hmax
        exact ⟨BitVec.eq_of_toNat_eq ((h₁.loadMin hl).unique hmin),
          BitVec.eq_of_toNat_eq ((h₁.loadMax hl).unique hmax)⟩
    obtain ⟨e₁, a₁, b₁, c₁⟩ := r₁
    obtain ⟨e₂, a₂, b₂, c₂⟩ := r₂
    obtain ⟨hmin, hmax⟩ := hbounds
    cases hentry
    cases hcount
    cases hmin
    cases hmax
    rfl

end Order

/-- A load that builds the image has come to every program header. -/
theorem index_of_loadsImage (h : WellFormedElf file eh) (hload : LoadsImage file eh) :
    ∀ i < eh.ePhnum.toNat, i * eh.ePhentsize.toNat < 2 ^ 31 := by
  -- a memory with a byte at every address
  obtain ⟨s', r, hs', -⟩ := hload.image
    (fun (w : ElfWrite) (m : Word → Byte) a => (w.byteAt a).getD (m a)) id (fun _ _ _ _ => rfl)
    fun _ => 0
  exact h.index_of_load hs'

/-- **The loader builds the image of a well-formed file exactly when no offset of a program header
overflows.** -/
theorem loadsImage_iff {size : ℕ} (file : Vector Byte size) (eh : Elf32Ehdr)
    (h : WellFormedElf file eh) :
    LoadsImage file eh ↔ ∀ i < eh.ePhnum.toNat, i * eh.ePhentsize.toNat < 2 ^ 31 := by
  refine ⟨index_of_loadsImage h, fun hindex =>
    ⟨fun write view hst s => h.load_spec hindex hst s, ?_⟩⟩
  intro size' file' eh' h' hre σ write view hst s s' x hload
  obtain ⟨s₂, r₂, hload₂, himage₂⟩ := h'.load_spec (h'.index_of_load hload) hst s
  obtain ⟨s₁, r₁, hload₁, himage₁⟩ := h.load_spec hindex hst s
  cases hload.symm.trans hload₂
  obtain ⟨hview, rfl⟩ := himage₁.unique hre himage₂
  exact ⟨s₁, hload₁, hview⟩

/-! ### Files behind a given header -/

section Header

variable {hdr : Vector Byte Elf32Ehdr.size} {n : ℕ} {tail : Vector Byte n}

theorem read_append : Buffer.read (hdr ++ tail) 0 Elf32Ehdr.size = some hdr := by
  rw [Buffer.read, dif_pos (by omega)]
  refine congrArg some (Vector.ext fun i hi => ?_)
  simp

theorem checkHeader_append (hvalid : validateHeader (.ofBytes hdr) = .ok ())
    (hend : (Elf32Ehdr.ofBytes hdr).ePhoff.toNat + (Elf32Ehdr.ofBytes hdr).ePhnum.toNat *
      (Elf32Ehdr.ofBytes hdr).ePhentsize.toNat ≤ Elf32Ehdr.size + n) :
    checkHeader (hdr ++ tail) = some (.ok (.ofBytes hdr)) := by
  rw [checkHeader, if_neg (by omega), read_append, Option.map_some]
  dsimp only
  rw [hvalid]
  exact congrArg some ((if_neg (not_lt.2 hend)).trans rfl)

theorem headerAt_zeros (hoff : eh.ePhoff = 52) {i : ℕ} {ph : Elf32Phdr}
    (h : headerAt (hdr ++ Vector.replicate n (0 : Byte)) eh i = some ph) : ph.pType ≠ ptLoad := by
  obtain ⟨buf, hread, rfl⟩ := Option.map_eq_some_iff.1 h
  have hzero (k : ℕ) : buf[k]?.getD 0 = 0 := by
    rw [Buffer.getElem?_of_read hread]
    split
    · have hle : Elf32Ehdr.size ≤ eh.ePhoff.toNat + i * eh.ePhentsize.toNat + k := by
        rw [hoff]
        change 52 ≤ 52 + _ + k
        omega
      rw [Vector.getElem?_append_right hle, Vector.getElem?_replicate]
      split
      · rfl
      · rfl
    · rfl
  have htype : (Elf32Phdr.ofBytes buf).pType = 0 := by
    unfold Elf32Phdr.ofBytes field
    simp only [hzero]
    rfl
  rw [htype]
  decide

theorem wellFormedElf_zeros (hvalid : validateHeader (.ofBytes hdr) = .ok ())
    (hoff : (Elf32Ehdr.ofBytes hdr).ePhoff = 52)
    (hent : Elf32Phdr.size ≤ (Elf32Ehdr.ofBytes hdr).ePhentsize.toNat)
    (hend : (Elf32Ehdr.ofBytes hdr).ePhnum.toNat * (Elf32Ehdr.ofBytes hdr).ePhentsize.toNat ≤ n) :
    WellFormedElf (hdr ++ Vector.replicate n (0 : Byte)) (.ofBytes hdr) := by
  have hnone : loadHeaders (hdr ++ Vector.replicate n (0 : Byte)) (.ofBytes hdr) = [] := by
    refine List.filter_eq_nil_iff.2 fun ph hph => ?_
    obtain ⟨i, -, hi⟩ := List.mem_filterMap.1 hph
    simpa using headerAt_zeros hoff hi
  refine ⟨checkHeader_append hvalid ?_, hent, ?_, ?_, ?_, ?_⟩
  · rw [hoff]
    exact Nat.add_le_add_left hend 52
  all_goals rw [hnone]
  · nofun
  · nofun
  · nofun
  · exact .nil

end Header

/-- A valid header whose table begins behind it. -/
def elfHeader (phentsize phnum : List Byte) : Vector Byte Elf32Ehdr.size := Vector.ofFn fun i =>
  ([0x7F, 0x45, 0x4C, 0x46, 1, 1, 1, 0, 0, 0, 0, 0, 0, 0, 0, 0, 2, 0, 0xF3, 0, 1, 0, 0, 0,
    0, 0, 0, 0x80, 52, 0, 0, 0, 0, 0, 0, 0, 0, 0, 0, 0, 52, 0] ++ phentsize ++ phnum)[i.1]?.getD 0

/-- One segment at 0x80000000: the byte 0xAB behind the table, and a zero. -/
def oneSegment : Vector Byte (Elf32Ehdr.size + 33) :=
  elfHeader [32, 0] [1, 0] ++ Vector.ofFn fun i : Fin 33 =>
    ([1, 0, 0, 0, 84, 0, 0, 0, 0, 0, 0, 0, 0, 0, 0, 0x80, 1, 0, 0, 0, 2, 0, 0, 0, 0, 0, 0, 0,
      0, 0, 0, 0, 0xAB] : List Byte)[i.1]?.getD 0

theorem wellFormedElf_oneSegment :
    WellFormedElf oneSegment (.ofBytes (elfHeader [32, 0] [1, 0])) := by
  have hone : loadHeaders oneSegment (.ofBytes (elfHeader [32, 0] [1, 0])) =
      [⟨1, 84, 0x80000000, 1, 2⟩] := by decide +kernel
  refine ⟨checkHeader_append rfl (by decide), by decide, ?_, ?_, ?_, ?_⟩
  all_goals rw [hone]
  · decide
  · decide
  · decide
  · exact List.pairwise_singleton ..

theorem loadsImage_iff_oneSegment :
    LoadsImage oneSegment (.ofBytes (elfHeader [32, 0] [1, 0])) ↔
      ∀ i < (Elf32Ehdr.ofBytes (elfHeader [32, 0] [1, 0])).ePhnum.toNat,
        i * (Elf32Ehdr.ofBytes (elfHeader [32, 0] [1, 0])).ePhentsize.toNat < 2 ^ 31 :=
  loadsImage_iff _ _ wellFormedElf_oneSegment

/-- A table of 0x8002 entries of 0xFFFF bytes: the product overflows for the last one. -/
theorem not_loadsImage :
    ¬ ∀ (size : ℕ) (file : Vector Byte size) (eh : Elf32Ehdr), WellFormedElf file eh →
      LoadsImage file eh := by
  intro h
  have hwf : WellFormedElf
      (elfHeader [0xFF, 0xFF] [0x02, 0x80] ++ Vector.replicate (0x8002 * 0xFFFF) (0 : Byte))
      (.ofBytes (elfHeader [0xFF, 0xFF] [0x02, 0x80])) :=
    wellFormedElf_zeros rfl (by decide) (by decide) (by decide)
  have hindex := index_of_loadsImage hwf (h _ _ _ hwf) 0x8001 (by decide)
  exact absurd hindex (by decide)

end VirtualSoC
