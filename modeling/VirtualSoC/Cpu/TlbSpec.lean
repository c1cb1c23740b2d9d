import VirtualSoC.Cpu.CsrSpec
import VirtualSoC.Cpu.MmuSpec
import VirtualSoC.Lib.Machine

/-!
# The TLB over runs

The MMU acts on page tables in RAM while others write to them, flush the TLB and write CSRs;
a write to `satp` flushes through the callback that the ISS connects.

* `MmuState.cached_since`: every TLB entry caches a leaf that the tables held at some moment since
  the last flush;
* `translate_transparent`: so every translation answers as the walk does on the tables of such a
  moment, and as the walk on the present tables when nobody else changed the entries on its way;
* `translate_marked`: the A and D bits are set as long as no store is served by an entry that was
  cached without D, which is where `not_marked_store_after_load` gets lost.
-/

namespace VirtualSoC

/-! ### The machine -/

/-- The MMU, the CSR file that holds `satp`, and the memory with the page tables. -/
structure MmuState where
  csr : CSRFile
  tlb : Tlb
  mem : Ram

/-- What happens to the MMU and to the memory behind it. -/
inductive MmuInput
  | translate (vaddr : Word) (type : AccessType) (priv : Priv) (mstatus : Word) (pick : Tlb → ℕ)
  /-- Anybody else changes memory. -/
  | write (f : Ram → Ram)
  | flush
  | csrWrite (addr : BitVec 16) (priv : Priv) (val : Word)

/-- `CSRFile::write`, with `on_satp_write` connected to `flush_tlb`. -/
def MmuState.csrWrite (s : MmuState) (addr : BitVec 16) (priv : Priv) (val : Word) : MmuState :=
  match s.csr.write addr priv val with
  | none => s
  | some (csr, satpWritten) => { s with csr, tlb := if satpWritten then flushTlb else s.tlb }

/-- The MMU; the output is the answer to a translation. -/
def mmuMachine : Machine MmuState MmuInput (Option MMUResult) where
  step s
    | .translate vaddr type priv mstatus pick =>
      let (r, tlb, mem) := translate ramPt pick vaddr type priv s.csr.satp mstatus s.tlb s.mem
      ({ s with tlb, mem }, some r)
    | .write f => ({ s with mem := f s.mem }, none)
    | .flush => ({ s with tlb := flushTlb }, none)
    | .csrWrite addr priv val => (s.csrWrite addr priv val, none)

/-- The input flushes the TLB. -/
def flushes (s : MmuState) : MmuInput → Prop
  | .flush => True
  | .csrWrite addr priv val => ∃ csr, s.csr.write addr priv val = some (csr, true)
  | _ => False

/-- Whoever else writes leaves the entries on the way to `page` as they are, up to A and D bits. -/
def KeepsTables (page : Word) (s : MmuState) : MmuInput → Prop
  | .write f => ∀ a ∈ walkWords s.mem page 1 (rootTable s.csr.satp),
      PteEq (pteAt s.mem a) (pteAt (f s.mem) a)
  | _ => True

/-- `satp` selects Sv32. -/
def MmuState.Sv32 (s : MmuState) : Prop := s.csr.satp >>> satpModeShift ≠ satpModeBare

instance (s : MmuState) : Decidable s.Sv32 := inferInstanceAs (Decidable (_ ≠ _))

/-! ### Every step -/

/-- A CSR write flushes, or leaves `satp` and the TLB as they are. -/
theorem MmuState.csrWrite_cases (s : MmuState) (addr : BitVec 16) (priv : Priv) (val : Word) :
    (s.csrWrite addr priv val).mem = s.mem ∧
      ((s.csrWrite addr priv val).tlb = flushTlb ∧ flushes s (.csrWrite addr priv val) ∨
        (s.csrWrite addr priv val).csr.satp = s.csr.satp ∧
          (s.csrWrite addr priv val).tlb = s.tlb ∧ ¬ flushes s (.csrWrite addr priv val)) := by
  unfold csrWrite
  cases hw : s.csr.write addr priv val with
  | none =>
    refine ⟨rfl, .inr ⟨rfl, rfl, ?_⟩⟩
    rintro ⟨c, hc⟩
    cases hw.symm.trans hc
  | some r =>
    obtain ⟨c, b⟩ := r
    obtain ⟨-, -, hreg, hb⟩ := CSRFile.write_eq_some hw
    cases b with
    | true => exact ⟨rfl, .inl ⟨rfl, c, hw⟩⟩
    | false =>
      have hne : addr ≠ csrSatp := of_decide_eq_false hb.symm
      refine ⟨rfl, .inr ⟨(CSRFile.writeReg_satp c hreg).resolve_left hne, rfl, ?_⟩⟩
      rintro ⟨c', hc⟩
      cases hw.symm.trans hc

theorem satp_next {s : MmuState} {i : MmuInput} (h : ¬ flushes s i) :
    (mmuMachine.next s i).csr.satp = s.csr.satp := by
  cases i with
  | csrWrite addr priv val =>
    rcases (s.csrWrite_cases addr priv val).2 with ⟨-, hf⟩ | ⟨hsatp, -, -⟩
    · exact absurd hf h
    · exact hsatp
  | _ => rfl

/-- An entry in the TLB after a step was there before a step that does not flush, or is the leaf
just found by a translation. -/
theorem lookup_next {s : MmuState} {i : MmuInput} {k : Word} {e : TLBEntry}
    (h : (mmuMachine.next s i).tlb.lookup k = some e) :
    ¬ flushes s i ∧ (s.tlb.lookup k = some e ∨
      ∃ l type, findLeaf s.mem s.csr.satp k = some l ∧ e = l.entry type ∧
        (mmuMachine.next s i).mem = l.mark type s.mem) := by
  cases i with
  | translate vaddr type priv mstatus pick =>
    refine ⟨not_false, ?_⟩
    rcases lookup_translate pick vaddr type priv s.csr.satp mstatus s.tlb s.mem h with
      h | ⟨l, hl, he, hm⟩
    · exact .inl h
    · exact .inr ⟨l, type, hl, he, hm⟩
  | write f => exact ⟨not_false, .inl h⟩
  | flush => cases h
  | csrWrite addr priv val =>
    rcases (s.csrWrite_cases addr priv val).2 with ⟨htlb, -⟩ | ⟨-, htlb, hf⟩
    · change (s.csrWrite addr priv val).tlb.lookup k = some e at h
      rw [htlb] at h
      cases h
    · change (s.csrWrite addr priv val).tlb.lookup k = some e at h
      rw [htlb] at h
      exact ⟨hf, .inl h⟩

/-! ### Transparency -/

/-- **Every TLB entry caches a leaf of the tables as they were since the last flush.** -/
theorem MmuState.cached_since {s₀ : MmuState} (h₀ : s₀.tlb = flushTlb) (is : List MmuInput)
    {k : Word} {e : TLBEntry} (h : (mmuMachine.run s₀ is).tlb.lookup k = some e) :
    mmuMachine.Since
      (fun s => s.csr.satp = (mmuMachine.run s₀ is).csr.satp ∧
        ∃ l, findLeaf s.mem s.csr.satp k = some l ∧ Caches e l)
      flushes s₀ is := by
  induction is using List.reverseRecOn with
  | nil =>
    change s₀.tlb.lookup k = some e at h
    rw [h₀] at h
    cases h
  | append_singleton is i ih =>
    rw [Machine.run_snoc] at h
    obtain ⟨hflush, hold | ⟨l, type, hl, rfl, -⟩⟩ := lookup_next h
    · rw [Machine.run_snoc, satp_next hflush]
      exact (ih hold).snoc hflush
    · -- the leaf was found in the tables before this step
      rw [Machine.run_snoc, satp_next hflush]
      exact (Machine.Since.now ⟨rfl, l, hl, caches_entry l type⟩).snoc hflush

/-- A step that keeps the entries on the way to a page keeps what a walk answers. -/
theorem resolve_next {s : MmuState} {i : MmuInput} {vaddr : Word}
    (hkeep : KeepsTables (vaddr >>> pageShift) s i) (type : AccessType) (priv : Priv)
    (mstatus : Word) :
    resolve vaddr type priv s.csr.satp mstatus (mmuMachine.next s i).mem =
      resolve vaddr type priv s.csr.satp mstatus s.mem := by
  cases i with
  | translate vaddr' type' priv' mstatus' pick =>
    have hle := adLe_translate pick vaddr' type' priv' s.csr.satp mstatus' s.tlb s.mem
    exact (resolve_congr vaddr type priv s.csr.satp mstatus (hle.findLeaf_rel _ _)).symm
  | write f =>
    refine resolve_congr vaddr type priv s.csr.satp mstatus ?_
    exact findLeafFrom_congr fun a ha => (hkeep a ha).symm
  | flush => rfl
  | csrWrite addr priv' val => rw [show (mmuMachine.next s (.csrWrite addr priv' val)).mem = s.mem
      from (s.csrWrite_cases addr priv' val).1]

/-- **The TLB is transparent.**  After every run from an empty TLB, a translation in Sv32 mode
answers as a walk would on the tables of some moment since the last flush; and as a walk on the
present tables if nobody but the MMU has changed the entries on its way since then. -/
theorem translate_transparent (s₀ : MmuState) (h₀ : s₀.tlb = flushTlb) (is : List MmuInput)
    (hsv : (mmuMachine.run s₀ is).Sv32) (vaddr : Word) (type : AccessType) (priv : Priv)
    (mstatus : Word) (pick : Tlb → ℕ) :
    ∃ r, mmuMachine.out (mmuMachine.run s₀ is) (.translate vaddr type priv mstatus pick) = some r ∧
      mmuMachine.Since
        (fun s => (walk ramPt pick vaddr type priv (mmuMachine.run s₀ is).csr.satp mstatus flushTlb
          s.mem).1 = r) flushes s₀ is ∧
      (mmuMachine.AlongSince (KeepsTables (vaddr >>> pageShift)) flushes s₀ is →
        (walk ramPt pick vaddr type priv (mmuMachine.run s₀ is).csr.satp mstatus flushTlb
          (mmuMachine.run s₀ is).mem).1 = r) := by
  simp only [walk_fst]
  set s := mmuMachine.run s₀ is with hs
  refine ⟨_, rfl, ?_⟩
  -- a moment since the last flush whose tables give the answer
  have key : mmuMachine.Since
      (fun s' => s'.csr.satp = s.csr.satp ∧ resolve vaddr type priv s'.csr.satp mstatus s'.mem =
        (translate ramPt pick vaddr type priv s.csr.satp mstatus s.tlb s.mem).1) flushes s₀ is := by
    cases ht : s.tlb.lookup (vaddr >>> pageShift) with
    | none =>
      rw [translate_miss_ram pick vaddr type priv _ mstatus _ _ hsv ht, finishWalk_fst]
      exact Machine.Since.now ⟨rfl, rfl⟩
    | some e =>
      rw [translate_hit pick vaddr type priv _ mstatus _ ramPt _ hsv ht]
      refine (MmuState.cached_since h₀ is ht).mono ?_
      rintro s' ⟨hsatp, l, hl, hc⟩
      refine ⟨hsatp, ?_⟩
      rw [resolve, hl]
      exact (hc.translate_eq vaddr type priv mstatus).symm
  refine ⟨key.mono fun s' h => h.1 ▸ h.2, fun hkeep => ?_⟩
  refine (key.persist hkeep ?_).2
  rintro s' i ⟨hsatp, hr⟩ hi hflush
  rw [satp_next hflush, resolve_next hi]
  exact ⟨hsatp, hr⟩

/-- Page tables with one superpage, which maps the low 4 MB to themselves for S-mode. -/
def superpageTables : MmuState where
  csr := { satp := 0x80000001 }
  tlb := flushTlb
  mem a := if a = 0x1000 then 7 else 0

/-- A load, and data written to the first page of the superpage. -/
def loadThenWrite : List MmuInput :=
  [.translate 0 .load prvS 0 fun _ => 0, .write fun m => Bytes.writeLE m (0 : Word) (0x41 : Word) 4]

theorem translate_transparent_superpage :
    ∃ r, mmuMachine.out (mmuMachine.run superpageTables loadThenWrite)
          (.translate 0x123 .store prvS 0 fun _ => 0) = some r ∧
      mmuMachine.Since
        (fun s => (walk ramPt (fun _ => 0) 0x123 .store prvS
          (mmuMachine.run superpageTables loadThenWrite).csr.satp 0 flushTlb s.mem).1 = r) flushes
          superpageTables loadThenWrite ∧
      (walk ramPt (fun _ => 0) 0x123 .store prvS
        (mmuMachine.run superpageTables loadThenWrite).csr.satp 0 flushTlb
        (mmuMachine.run superpageTables loadThenWrite).mem).1 = r := by
  obtain ⟨r, hout, hsince, hpresent⟩ := translate_transparent superpageTables rfl loadThenWrite
    (by decide) 0x123 .store prvS 0 fun _ => 0
  refine ⟨r, hout, hsince, hpresent ?_⟩
  -- the data is not in the entry of the superpage
  refine Machine.Along.alongSince ⟨trivial, fun a ha => ?_, trivial⟩
  obtain rfl : a = 0x1000 := List.mem_singleton.1 ha
  rfl

/-! ### Accessed and dirty bits -/

/-- The leaf that maps `vaddr` has the bits that an access requires. -/
def MmuState.Marked (s : MmuState) (vaddr : Word) (type : AccessType) : Prop :=
  ∃ l, findLeaf s.mem s.csr.satp (vaddr >>> pageShift) = some l ∧
    l.pte &&& requiredBits type = requiredBits type

/-- After a translation in Sv32 mode that does not fault, the leaf has the bits. -/
def MarksLeaf (s : MmuState) (i : MmuInput) : Prop :=
  match i with
  | .translate vaddr type _ _ _ => s.Sv32 → ∀ r, mmuMachine.out s i = some r → ¬ r.fault →
      (mmuMachine.next s i).Marked vaddr type
  | _ => True

/-- No store is served by an entry that was cached with D clear, and whoever else writes leaves the
entries on the way to the cached pages as they are. -/
def HitsDirty (s : MmuState) : MmuInput → Prop
  | .translate vaddr .store priv mstatus _ => ∀ e, s.tlb.lookup (vaddr >>> pageShift) = some e →
      checkPermissions e.pteFlags .store priv mstatus → e.pteFlags &&& pteD ≠ 0
  | .write f => ∀ page e, s.tlb.lookup page = some e →
      ∀ a ∈ walkWords s.mem page 1 (rootTable s.csr.satp), pteAt (f s.mem) a = pteAt s.mem a
  | _ => True

/-- Every entry caches a leaf of the present tables that has A set, and D if the entry has. -/
def MmuState.CachesMarked (s : MmuState) : Prop :=
  ∀ k e, s.tlb.lookup k = some e → ∃ l, findLeaf s.mem s.csr.satp k = some l ∧ Caches e l ∧
    l.pte &&& pteA = pteA ∧ (e.pteFlags &&& pteD ≠ 0 → l.pte &&& pteD = pteD)

/-- The required bits are there after the A/D update of the leaf that was found. -/
theorem Leaf.findLeaf_mark {m : Ram} {satp page : Word} {l : Leaf}
    (hl : findLeaf m satp page = some l) (type : AccessType) :
    ∃ l', findLeaf (l.mark type m) satp page = some l' ∧ l.Same l' ∧
      l'.pte = l.pte ||| requiredBits type := by
  obtain ⟨ha, hpte⟩ := findLeaf_spec hl
  obtain ⟨l', hl', hs, hpte'⟩ := (l.adLe_mark ha hpte type).findLeaf hl
  exact ⟨l', hl', hs, hpte'.trans (l.pteAt_mark hpte type)⟩

/-- A step that only sets A and D bits, in the tables of the same `satp`, keeps a marked leaf. -/
theorem AdLe.findLeaf_marked {m m' : Ram} (h : AdLe m m') {satp page : Word} {l : Leaf}
    (hl : VirtualSoC.findLeaf m satp page = some l) :
    ∃ l', VirtualSoC.findLeaf m' satp page = some l' ∧ l.Same l' ∧
      ∀ c, l.pte &&& c = c → l'.pte &&& c = c := by
  obtain ⟨l', hl', hs, hpte'⟩ := h.findLeaf hl
  obtain ⟨ha, hpte⟩ := findLeaf_spec hl
  refine ⟨l', hl', hs, fun c hc => ?_⟩
  rw [hpte']
  exact h.mono _ ha c (hpte ▸ hc)

/-- A flag of an entry is set in the leaf that was cached, once its A and D bits are updated. -/
theorem Leaf.or_requiredBits_of_entry {l : Leaf} {type : AccessType}
    (h : (l.entry type).pteFlags &&& pteD ≠ 0) :
    (l.pte ||| requiredBits type) &&& pteD = pteD := by
  refine Bits.and_twoPow_of_ne_zero (i := 7) fun hz => h ?_
  exact (Bits.and_and_of_subset (x := l.pte ||| requiredBits type) rfl).trans hz

/-- A write elsewhere leaves the leaf that `m` has for a page. -/
theorem findLeaf_of_words {m m' : Ram} {satp page : Word} {l : Leaf}
    (h : ∀ a ∈ walkWords m page 1 (rootTable satp), pteAt m' a = pteAt m a)
    (hl : findLeaf m satp page = some l) :
    ∃ l', findLeaf m' satp page = some l' ∧ l.Same l' ∧ l'.pte = l.pte := by
  have hr : Option.Rel Leaf.Same (findLeaf m' satp page) (findLeaf m satp page) :=
    findLeafFrom_congr fun a ha => h a ha ▸ .refl _
  rw [hl] at hr
  cases hl' : findLeaf m' satp page with
  | none =>
    rw [hl'] at hr
    cases hr
  | some l' =>
    rw [hl'] at hr
    cases hr with
    | some hs =>
      refine ⟨l', rfl, ⟨hs.addr.symm, hs.isSuperpage.symm, hs.pte.symm⟩, ?_⟩
      rw [(findLeaf_spec hl').2, (findLeaf_spec hl).2, hs.addr]
      exact h _ (mem_walkWords_of_findLeafFrom hl)

/-- A step that meets the condition keeps the leaf of a cached page, and its bits only grow. -/
theorem findLeaf_next {s : MmuState} {i : MmuInput} (hi : HitsDirty s i) {k : Word} {e : TLBEntry}
    (he : s.tlb.lookup k = some e) {l : Leaf} (hl : findLeaf s.mem s.csr.satp k = some l) :
    ∃ l', findLeaf (mmuMachine.next s i).mem s.csr.satp k = some l' ∧ l.Same l' ∧
      ∀ c, l.pte &&& c = c → l'.pte &&& c = c := by
  cases i with
  | translate vaddr type priv mstatus pick =>
    exact (adLe_translate pick vaddr type priv s.csr.satp mstatus s.tlb s.mem).findLeaf_marked hl
  | write f =>
    obtain ⟨l', hl', hsame, hpte⟩ := findLeaf_of_words (hi k e he) hl
    exact ⟨l', hl', hsame, fun c hc => hpte.symm ▸ hc⟩
  | flush => exact (AdLe.refl s.mem).findLeaf_marked hl
  | csrWrite addr priv val =>
    change ∃ l', findLeaf (s.csrWrite addr priv val).mem _ _ = _ ∧ _
    rw [(s.csrWrite_cases addr priv val).1]
    exact (AdLe.refl s.mem).findLeaf_marked hl

theorem MmuState.CachesMarked.next {s : MmuState} {i : MmuInput} (hs : s.CachesMarked)
    (hi : HitsDirty s i) : (mmuMachine.next s i).CachesMarked := by
  intro k e h
  obtain ⟨hflush, hold | ⟨l, type, hl, rfl, hmem⟩⟩ := lookup_next h
  · -- the bits of an old entry's leaf only grow
    obtain ⟨l, hl, hc, hA, hD⟩ := hs k e hold
    obtain ⟨l', hl', hsame, hmono⟩ := findLeaf_next hi hold hl
    rw [satp_next hflush]
    exact ⟨l', hl', hc.of_same hsame, hmono _ hA, fun h => hmono _ (hD h)⟩
  · obtain ⟨l', hl', hsame, hpte⟩ := l.findLeaf_mark hl type
    rw [satp_next hflush, hmem]
    refine ⟨l', hl', (caches_entry l type).of_same hsame, ?_, fun hd => ?_⟩
    · rw [hpte, BitVec.or_comm]
      exact Bits.or_and_of_subset (by cases type <;> rfl)
    · rw [hpte]
      exact l.or_requiredBits_of_entry hd

/-- One translation sets the bits that it requires. -/
theorem MmuState.CachesMarked.marksLeaf {s : MmuState} {i : MmuInput} (hs : s.CachesMarked)
    (hi : HitsDirty s i) : MarksLeaf s i := by
  cases i with
  | translate vaddr type priv mstatus pick =>
    intro hsv r hout hr
    obtain rfl : (translate ramPt pick vaddr type priv s.csr.satp mstatus s.tlb s.mem).1 = r :=
      Option.some.inj hout
    unfold Marked
    change ∃ l, findLeaf (translate ramPt pick vaddr type priv s.csr.satp mstatus s.tlb s.mem).2.2
      s.csr.satp (vaddr >>> pageShift) = some l ∧ _
    cases ht : s.tlb.lookup (vaddr >>> pageShift) with
    | none =>
      rw [translate_miss_ram pick vaddr type priv _ mstatus _ _ hsv ht] at hr ⊢
      cases hl : findLeaf s.mem s.csr.satp (vaddr >>> pageShift) with
      | none =>
        rw [hl] at hr
        exact absurd rfl hr
      | some l =>
        rw [hl, finishWalk_fst] at hr
        by_cases hp : checkPermissions l.pte type priv mstatus
        · obtain ⟨l', hl', -, hpte⟩ := l.findLeaf_mark hl type
          simp only [finishWalk, if_pos hp]
          refine ⟨l', hl', ?_⟩
          rw [hpte, BitVec.or_comm]
          exact Bits.or_and_of_subset (BitVec.and_self)
        · simp only [Leaf.translate, if_neg hp] at hr
          exact absurd rfl hr
    | some e =>
      rw [translate_hit pick vaddr type priv _ mstatus _ ramPt _ hsv ht] at hr ⊢
      obtain ⟨l, hl, hc, hA, hD⟩ := hs _ e ht
      refine ⟨l, hl, ?_⟩
      cases type with
      | store =>
        by_cases hp : checkPermissions e.pteFlags .store priv mstatus
        · rw [requiredBits, if_pos rfl, BitVec.and_or_distrib_left, hA, hD (hi e ht hp)]
        · rw [TLBEntry.translate, if_neg hp] at hr
          exact absurd rfl hr
      | _ => exact hA
  | _ => trivial

/-- **A and D bits are not missed** in any run from an empty TLB in which no store is served by an
entry that was cached with D clear, and nobody else changes the entries of cached pages. -/
theorem translate_marked (s₀ : MmuState) (h₀ : s₀.tlb = flushTlb) (is : List MmuInput)
    (h : mmuMachine.Along HitsDirty s₀ is) : mmuMachine.Along MarksLeaf s₀ is := by
  have hinit : s₀.CachesMarked := by
    intro k e hk
    rw [h₀] at hk
    cases hk
  exact Machine.along_of_invariant_along hinit (fun _ _ hs hi => hs.next hi)
    (fun _ _ hs hi => hs.marksLeaf hi) h

/-- Two stores to a page, and data written in between. -/
theorem translate_marked_stores :
    mmuMachine.Along MarksLeaf superpageTables [.translate 0 .store prvS 0 fun _ => 0,
      .write fun m => Bytes.writeLE m (0 : Word) (0x41 : Word) 4,
      .translate 4 .store prvS 0 fun _ => 0] := by
  refine translate_marked superpageTables rfl _ ⟨?_, ?_, ?_, trivial⟩
  · rintro e ⟨⟩
  · intro page e he a ha
    rcases Tlb.lookup_fill (show (Tlb.fill flushTlb (fun _ => 0) 0 _).lookup page = some e from he)
      with ⟨rfl, -⟩ | hold
    · obtain rfl : a = 0x1000 := List.mem_singleton.1 ha
      decide
    · cases hold
  · rintro e ⟨⟩ -
    decide

/-- A load, and then a store that the TLB serves: D stays clear. -/
theorem not_marked_store_after_load :
    ¬ ∀ (s₀ : MmuState) (is : List MmuInput), s₀.tlb = flushTlb →
      (∀ i ∈ is, ∃ vaddr type priv mstatus pick, i = .translate vaddr type priv mstatus pick) →
      mmuMachine.Along MarksLeaf s₀ is := by
  intro h
  have hrun := h superpageTables [.translate 0 .load prvS 0 fun _ => 0,
    .translate 0 .store prvS 0 fun _ => 0] rfl (by simp)
  obtain ⟨l, hl, hD⟩ := hrun.2.1 (by decide) _ rfl (by decide)
  have hpte : l.pte = 0x47 := by
    have hpte := congrArg (Option.map Leaf.pte) hl
    exact (Option.some.inj hpte).symm
  rw [hpte] at hD
  exact absurd hD (by decide)

end VirtualSoC
