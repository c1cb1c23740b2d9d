import VirtualSoC.Cpu.MmuSpec
import VirtualSoC.Isa.Sv32

/-!
# The page-table walk implements Sv32

On a miss, `MMU::translate` does over plain RAM what the manual prescribes (`translate_sv32`); the
bus has 32 address bits, so it sees a physical address modulo 2^32.
-/

namespace VirtualSoC

open Isa.Sv32

/-! ### Fields -/

section

variable (pte : Word)

theorem pteV_eq_zero : pte &&& pteV = 0 ↔ Pte.v pte = false :=
  Bits.and_twoPow_eq_zero pte (i := 0) (by decide)

theorem pteR_eq_zero : pte &&& pteR = 0 ↔ Pte.r pte = false :=
  Bits.and_twoPow_eq_zero pte (i := 1) (by decide)

theorem pteW_eq_zero : pte &&& pteW = 0 ↔ Pte.w pte = false :=
  Bits.and_twoPow_eq_zero pte (i := 2) (by decide)

theorem pteX_eq_zero : pte &&& pteX = 0 ↔ Pte.x pte = false :=
  Bits.and_twoPow_eq_zero pte (i := 3) (by decide)

theorem pteU_eq_zero : pte &&& pteU = 0 ↔ Pte.u pte = false :=
  Bits.and_twoPow_eq_zero pte (i := 4) (by decide)

/-- The two checks on an entry that the walk makes first. -/
theorem faults_iff :
    Pte.faults pte ↔ pte &&& pteV = 0 ∨ (pte &&& pteR = 0 ∧ pte &&& pteW ≠ 0) := by
  rw [pteV_eq_zero, pteR_eq_zero, Ne, pteW_eq_zero]
  simp [Pte.faults]

/-- The walk also looks at W, which makes no difference after these checks. -/
theorem isLeaf_iff (h : ¬ (pte &&& pteR = 0 ∧ pte &&& pteW ≠ 0)) :
    Pte.isLeaf pte ↔ pte &&& (pteR ||| pteW ||| pteX) ≠ 0 := by
  rw [pteR_eq_zero, Ne, pteW_eq_zero] at h
  have hor (x y : Word) : x ||| y = 0 ↔ x = 0 ∧ y = 0 := BitVec.or_eq_zero_iff
  rw [BitVec.and_or_distrib_left, BitVec.and_or_distrib_left, Ne, hor, hor, pteR_eq_zero,
    pteW_eq_zero, pteX_eq_zero, Pte.isLeaf]
  revert h
  cases Pte.r pte
  · cases Pte.w pte
    · simp
    · simp
  · simp

end

/-- The kind of an access. -/
def AccessType.access : AccessType → Access
  | .fetch => .fetch
  | .load => .load
  | .store => .store

/-- The privilege of a mode. -/
def modePriv : Mode → Priv
  | .user => prvU
  | .supervisor => prvS

/-- The context of an access: SUM and MXR come from `mstatus`. -/
def contextOf (mode : Mode) (mstatus : Word) : Context :=
  ⟨mode, mstatus.getLsbD 18, mstatus.getLsbD 19⟩

theorem faultCause_eq (type : AccessType) : faultCause type = type.access.cause := by
  cases type <;> rfl

theorem checkPermissions_eq (pte : Word) (type : AccessType) (mode : Mode) (mstatus : Word) :
    checkPermissions pte type (modePriv mode) mstatus =
      Pte.allows pte (contextOf mode mstatus) type.access := by
  have hsum : mstatus &&& mstatusSum = 0 ↔ mstatus.getLsbD 18 = false :=
    Bits.and_twoPow_eq_zero mstatus (i := 18) (by decide)
  have hmxr : mstatus &&& mstatusMxr = 0 ↔ mstatus.getLsbD 19 = false :=
    Bits.and_twoPow_eq_zero mstatus (i := 19) (by decide)
  have hor (x y : Word) : x ||| y = 0 ↔ x = 0 ∧ y = 0 := BitVec.or_eq_zero_iff
  unfold checkPermissions Pte.allows contextOf
  simp only [Ne, hsum, hmxr, BitVec.and_or_distrib_left, hor, pteU_eq_zero, pteR_eq_zero,
    pteX_eq_zero, pteW_eq_zero]
  generalize Pte.u pte = u, Pte.r pte = r, Pte.w pte = w, Pte.x pte = x
  generalize mstatus.getLsbD 18 = sum, mstatus.getLsbD 19 = mxr
  clear hsum hmxr hor
  revert u r w x sum mxr
  cases mode
  all_goals
    cases type
    all_goals decide

/-! ### Addresses -/

/-- What the page-table walk reads at a physical address. -/
def busWord (m : Ram) (p : PAddr) : Word := pteAt m (p.setWidth 32)

theorem vpn_eq_sv32 (va : Word) (i : ℕ) : vpn va i = (Isa.Sv32.vpn va i).setWidth 32 :=
  Bits.ushiftRight_and_ones (n := 10) va (12 + 10 * i)

theorem pteAddr_eq (a : PAddr) (va : Word) (i : ℕ) :
    (a + (Isa.Sv32.vpn va i).setWidth 34 * 4).setWidth 32 = a.setWidth 32 + vpn va i * 4 := by
  rw [BitVec.setWidth_add _ _ (by decide), BitVec.setWidth_mul _ _ (by decide),
    BitVec.setWidth_setWidth_of_le _ (by decide), vpn_eq_sv32]
  rfl

/-- The address of a page that a word with the page number `ppn` gives. -/
theorem pageAddr_eq {x : Word} {ppn : BitVec 22} (h : x = ppn.setWidth 32) :
    (pageAddr ppn).setWidth 32 = x <<< pageShift := by
  rw [h]
  refine BitVec.eq_of_toNat_eq ?_
  rw [pageAddr, BitVec.toNat_setWidth, BitVec.toNat_shiftLeft, BitVec.toNat_shiftLeft,
    BitVec.toNat_setWidth, BitVec.toNat_setWidth, Nat.shiftLeft_eq, Nat.shiftLeft_eq, pageShift]
  omega

theorem mul_pageSize (x : Word) : x * pageSize = x <<< pageShift := by
  refine BitVec.eq_of_toNat_eq ?_
  rw [BitVec.toNat_mul, BitVec.toNat_shiftLeft, Nat.shiftLeft_eq]
  rfl

theorem ppn_eq (pte : Word) : pte >>> ptePpnShift = (Pte.ppn pte).setWidth 32 := by
  refine BitVec.eq_of_getLsbD_eq fun i hi => ?_
  rw [BitVec.getLsbD_ushiftRight, BitVec.getLsbD_setWidth, Pte.ppn, BitVec.getLsbD_extractLsb']
  by_cases h : i < 22
  · simp [h, hi, ptePpnShift]
  · simp [h, ptePpnShift, BitVec.getLsbD_of_ge pte (10 + i) (by omega)]

theorem rootTable_eq (satp : Word) :
    rootTable satp = (pageAddr (satp.extractLsb' 0 22)).setWidth 32 := by
  rw [pageAddr_eq (Bits.and_ones (n := 22) satp), ← mul_pageSize]
  rfl

/-- The high part of the page number of a superpage. -/
theorem superpage_eq (pte : Word) :
    ((pte >>> ptePpnShift) &&& ~~~0x3FF) <<< pageShift =
      ((Pte.ppn1 pte).setWidth 34 <<< 22).setWidth 32 := by
  have hones : (0x3FF : Word) = (BitVec.allOnes 10).setWidth 32 := by decide
  refine BitVec.eq_of_getLsbD_eq fun i hi => ?_
  simp only [hones, Pte.ppn1, BitVec.getLsbD_setWidth, BitVec.getLsbD_shiftLeft, BitVec.getLsbD_and,
    BitVec.getLsbD_not, BitVec.getLsbD_allOnes, BitVec.getLsbD_ushiftRight,
    BitVec.getLsbD_extractLsb', pageShift, ptePpnShift, hi]
  by_cases h : i < 22
  · simp [h, show i - 12 < 10 by omega, show i - 12 < 32 by omega]
  · have hpos : 10 + (i - 12) = 20 + (i - 22) := by omega
    simp [h, hpos, show ¬ i < 12 by omega, show ¬ i - 12 < 10 by omega, show i - 12 < 32 by omega,
      show i - 22 < 12 by omega, show i - 22 < 34 by omega, show i < 34 by omega]

theorem leafPaddr_eq (l : Isa.Sv32.Leaf) (hl : l.level = 0 ∨ l.level = 1) (va : Word) :
    leafPaddr (l.pte >>> ptePpnShift) (decide (l.level = 1)) va = (l.paddr va).setWidth 32 := by
  unfold leafPaddr Isa.Sv32.Leaf.paddr
  rcases hl with hl | hl
  · rw [hl, if_neg (by decide), if_pos rfl, BitVec.setWidth_or, pageAddr_eq (ppn_eq l.pte),
      BitVec.setWidth_setWidth_of_le _ (by decide)]
    exact congrArg _ (Bits.and_ones (n := 12) va)
  · rw [hl, if_pos (by decide), if_neg (by decide), BitVec.setWidth_or, superpage_eq,
      BitVec.setWidth_setWidth_of_le _ (by decide)]
    exact congrArg _ (Bits.and_ones (n := 22) va)

theorem ppn0_eq_zero (pte : Word) : (pte >>> ptePpnShift) &&& vpnMask = 0 ↔ Pte.ppn0 pte = 0 := by
  have h : (pte >>> ptePpnShift) &&& vpnMask = (Pte.ppn0 pte).setWidth 32 :=
    Bits.ushiftRight_and_ones (n := 10) pte 10
  rw [h]
  exact Bits.setWidth_inj (y := 0) (by decide)

/-! ### The walk -/

/-- The leaf of the model for one of the manual. -/
def ofSv32 (l : Isa.Sv32.Leaf) : Option Leaf :=
  if h : l.pte &&& pteR = 0 ∧ l.pte &&& pteW ≠ 0 then none
  else mkLeaf l.level (l.addr.setWidth 32) l.pte h

theorem findLeafFrom_eq_walk (m : Ram) (va : Word) (i : ℕ) (a : PAddr) :
    findLeafFrom m (va >>> pageShift) i (a.setWidth 32) =
      (Isa.Sv32.walk (busWord m) va i a).bind ofSv32 := by
  rw [findLeafFrom.eq_def, Isa.Sv32.walk.eq_def]
  dsimp only
  rw [← vpn_eq, ← pteAddr_eq]
  change (if pteAt m _ &&& pteV = 0 then _ else _) =
    (if Pte.faults (pteAt m ((a + (Isa.Sv32.vpn va i).setWidth 34 * 4).setWidth 32)) then _
      else _ : Option _).bind _
  unfold busWord
  generalize haddr : a + (Isa.Sv32.vpn va i).setWidth 34 * 4 = addr
  generalize hpte : pteAt m (addr.setWidth 32) = pte
  by_cases hf : Pte.faults pte
  · rw [if_pos hf]
    rcases (faults_iff pte).1 hf with hv | hr
    · rw [if_pos hv]
      rfl
    · by_cases hv : pte &&& pteV = 0
      · rw [if_pos hv]
        rfl
      · rw [if_neg hv, dif_pos hr]
        rfl
  · have hnot := fun h => hf ((faults_iff pte).2 h)
    have hr : ¬ (pte &&& pteR = 0 ∧ pte &&& pteW ≠ 0) := fun h => hnot (.inr h)
    rw [if_neg hf, if_neg fun h => hnot (.inl h), dif_neg hr]
    by_cases hl : Pte.isLeaf pte
    · rw [if_pos hl, if_pos ((isLeaf_iff pte hr).1 hl), Option.bind_some, ofSv32, dif_neg hr]
    · rw [if_neg hl, if_neg fun h => hl ((isLeaf_iff pte hr).2 h)]
      cases i with
      | zero => rfl
      | succ i =>
        dsimp only
        rw [mul_pageSize, ← pageAddr_eq (ppn_eq pte)]
        exact findLeafFrom_eq_walk m va i _

theorem walk_spec {mem : PAddr → Word} {va : Word} {i : ℕ} {a : PAddr} {l : Isa.Sv32.Leaf}
    (h : Isa.Sv32.walk mem va i a = some l) :
    l.level ≤ i ∧ l.pte = mem l.addr ∧ ¬ (l.pte &&& pteR = 0 ∧ l.pte &&& pteW ≠ 0) := by
  rw [Isa.Sv32.walk.eq_def] at h
  dsimp only at h
  split at h
  · cases h
  next hf =>
    split at h
    · cases h
      exact ⟨le_rfl, rfl, fun hr => hf ((faults_iff _).2 (.inr hr))⟩
    · cases i with
      | zero => cases h
      | succ i =>
        obtain ⟨hlevel, hrest⟩ := walk_spec h
        exact ⟨Nat.le_succ_of_le hlevel, hrest⟩

/-! ### What a translation leaves -/

/-- `tlb'` is `tlb` with the entry `e` for `page`, from which at most one entry has been evicted,
when it was full. -/
structure Tlb.Filled (tlb : Tlb) (page : Word) (e : TLBEntry) (tlb' : Tlb) : Prop where
  entry : tlb'.lookup page = some e
  others : ∃ evicted : Option Word, (tlb.keys.length < tlbSize → evicted = none) ∧
    ∀ k ≠ page, tlb'.lookup k = if evicted = some k then none else tlb.lookup k

theorem Tlb.filled_fill (tlb : Tlb) (pick : Tlb → ℕ) (page : Word) (e : TLBEntry) :
    tlb.Filled page e (tlb.fill pick page e) where
  entry := AList.lookup_insert _
  others := by
    unfold fill
    by_cases hfull : tlb.keys.length ≥ tlbSize
    · rw [if_pos hfull]
      unfold eraseBegin
      cases hk : tlb.keys[pick tlb % tlb.keys.length]? with
      | none =>
        refine ⟨none, fun _ => rfl, fun k hne => ?_⟩
        rw [AList.lookup_insert_ne hne]
        rfl
      | some key =>
        refine ⟨some key, fun h => absurd h (not_lt.2 hfull), fun k hne => ?_⟩
        rw [AList.lookup_insert_ne hne]
        by_cases hkey : key = k
        · rw [if_pos (congrArg some hkey), hkey]
          exact AList.lookup_erase _ _
        · rw [if_neg fun h => hkey (Option.some.inj h)]
          exact AList.lookup_erase_ne (Ne.symm hkey)
    · rw [if_neg hfull]
      refine ⟨none, fun _ => rfl, fun k hne => ?_⟩
      rw [AList.lookup_insert_ne hne]
      rfl

/-- What the manual prescribes for an access to `va` that misses in `tlb`: a fault changes nothing;
otherwise the entry is cached, and the leaf receives its A and D bits. -/
def Prescribed (m : Ram) (tlb : Tlb) (va satp mstatus : Word) (mode : Mode) (type : AccessType)
    (x : MMUResult × Tlb × Ram) : Prop :=
  match Isa.Sv32.translate (busWord m) va satp (contextOf mode mstatus) type.access with
  | none => x = (⟨0, true, type.access.cause⟩, tlb, m)
  | some l =>
    x.1 = ⟨(l.paddr va).setWidth 32, false, 0⟩ ∧
      (∃ e, tlb.Filled (va >>> pageShift) e x.2.1 ∧ e.ppn = (Pte.ppn l.pte).setWidth 32 ∧
        e.pteFlags = Pte.marked l.pte type.access &&& 0xFF ∧ e.isSuperpage = (l.level = 1)) ∧
      x.2.2 = Bytes.writeLE m (l.addr.setWidth 32) (Pte.marked l.pte type.access) 4

theorem marked_eq (pte : Word) (type : AccessType) :
    Pte.marked pte type.access = pte ||| requiredBits type := by
  rw [Pte.marked, BitVec.or_assoc]
  cases type <;> rfl

/-- The A/D update writes the marked entry; when the bits are set already this changes nothing. -/
theorem Leaf.mark_eq {l : Leaf} {m : Ram} (h : l.pte = pteAt m l.addr) (type : AccessType) :
    l.mark type m = Bytes.writeLE m l.addr (l.pte ||| requiredBits type) 4 := by
  unfold mark
  split
  · rfl
  next hb =>
    rw [Bits.or_eq_self_of_subset (not_not.1 hb), h]
    exact (Bytes.writeLE_self (by decide) (by decide) _).symm

/-- What the walk does with the leaf of the manual. -/
theorem prescribed_finishWalk (pick : Tlb → ℕ) (m : Ram) (tlb : Tlb) (va satp mstatus : Word)
    (mode : Mode) (type : AccessType) :
    Prescribed m tlb va satp mstatus mode type
      (finishWalk pick va type (modePriv mode) mstatus tlb m
        ((Isa.Sv32.walk (busWord m) va 1 (pageAddr (satp.extractLsb' 0 22))).bind ofSv32)) := by
  unfold Prescribed Isa.Sv32.translate
  cases hw : Isa.Sv32.walk (busWord m) va 1 (pageAddr (satp.extractLsb' 0 22)) with
  | none => exact congrArg (·, tlb, m) (congrArg _ (faultCause_eq type))
  | some l =>
    obtain ⟨hlevel, hpte, hr⟩ := walk_spec hw
    have hlevel' : l.level = 0 ∨ l.level = 1 := by omega
    rw [Option.bind_some, ofSv32, dif_neg hr, mkLeaf]
    by_cases ha : l.level = 1 ∧ (l.pte >>> ptePpnShift) &&& vpnMask ≠ 0
    · -- a superpage that is not aligned
      have halign : l.aligned = false := by
        rw [Isa.Sv32.Leaf.aligned, ha.1, decide_eq_false ((ppn0_eq_zero l.pte).not.1 ha.2)]
        rfl
      rw [dif_pos ha, Option.filter_some, halign, Bool.and_false, if_neg Bool.false_ne_true]
      exact congrArg (·, tlb, m) (congrArg _ (faultCause_eq type))
    · have halign : l.aligned = true := by
        rcases hlevel' with h0 | h1
        · rw [Isa.Sv32.Leaf.aligned, h0]
          rfl
        · have hppn := (ppn0_eq_zero l.pte).1 (not_not.1 fun h => ha ⟨h1, h⟩)
          rw [Isa.Sv32.Leaf.aligned, decide_eq_true hppn, Bool.or_true]
      rw [dif_neg ha, Option.filter_some, halign, Bool.and_true, finishWalk]
      dsimp only
      rw [checkPermissions_eq]
      by_cases hp : Pte.allows l.pte (contextOf mode mstatus) type.access
      · rw [if_pos hp, if_pos hp]
        refine ⟨?_, ⟨_, Tlb.filled_fill .., ppn_eq l.pte, ?_, ?_⟩, ?_⟩
        · rw [Leaf.translate, checkPermissions_eq, if_pos hp, leafPaddr_eq l hlevel']
        · rw [marked_eq]
          rfl
        · exact decide_eq_true_eq
        · rw [marked_eq]
          exact Leaf.mark_eq hpte type
      · rw [if_neg hp, if_neg hp]
        exact congrArg (·, tlb, m) (congrArg _ (faultCause_eq type))

/-- **The page-table walk implements Sv32**, for every memory and every access in U- or S-mode. -/
theorem translate_sv32 (m : Ram) (tlb : Tlb) (va satp mstatus : Word) (mode : Mode)
    (type : AccessType) (pick : Tlb → ℕ) (hsv : satp >>> satpModeShift ≠ satpModeBare)
    (hmiss : tlb.lookup (va >>> pageShift) = none) :
    Prescribed m tlb va satp mstatus mode type
      (translate ramPt pick va type (modePriv mode) satp mstatus tlb m) := by
  rw [translate_miss_ram pick va type (modePriv mode) satp mstatus tlb m hsv hmiss, findLeaf,
    rootTable_eq, findLeafFrom_eq_walk]
  exact prescribed_finishWalk ..

/-- A store through a superpage, from an empty TLB. -/
theorem translate_sv32_superpage :
    Prescribed (fun a => if a = 0x1000 then 7 else 0) ∅ 0x123 0x80000001 0 .supervisor .store
      (translate ramPt (fun _ => 0) 0x123 .store (modePriv .supervisor) 0x80000001 0 ∅
        fun a => if a = 0x1000 then 7 else 0) :=
  translate_sv32 _ ∅ 0x123 0x80000001 0 .supervisor .store (fun _ => 0) (by decide) rfl

end VirtualSoC
