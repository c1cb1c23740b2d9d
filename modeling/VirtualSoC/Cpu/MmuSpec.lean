import VirtualSoC.Cpu.Mmu
import VirtualSoC.Lib.Bytes

/-!
# The page-table walk over plain RAM

`findLeaf` is the read-only part of the walk: the leaf that maps a virtual page.  Over RAM the
walk finds that leaf, checks its permissions, sets its A and D bits and caches it
(`walk_eq`).  What it finds does not depend on A and D bits of the entries that it reads
(`findLeafFrom_congr`).
-/

namespace VirtualSoC

/-- Physical memory. -/
abbrev Ram := Bytes.Mem 32

/-- The page-table entry at `a`. -/
def pteAt (m : Ram) (a : Word) : Word := Bytes.readLE m a 4

/-- The page-table callbacks on plain RAM. -/
def ramPt : PtMem Ram where
  read a m := (pteAt m a, m)
  write a v m := Bytes.writeLE m a v 4

/-! ### Leaves -/

/-- A leaf entry that the walk accepts: not the reserved combination, and aligned. -/
structure Leaf where
  addr : Word
  pte : Word
  isSuperpage : Bool
  readable : ¬ (pte &&& pteR = 0 ∧ pte &&& pteW ≠ 0)
  aligned : isSuperpage → (pte >>> ptePpnShift) &&& vpnMask = 0

namespace Leaf

variable (l : Leaf) (type : AccessType)

/-- The answer for an access that resolves to `l`. -/
def translate (vaddr : Word) (priv : Priv) (mstatus : Word) : MMUResult :=
  if checkPermissions l.pte type priv mstatus then
    ⟨leafPaddr (l.pte >>> ptePpnShift) l.isSuperpage vaddr, false, 0⟩
  else pageFault type

/-- The TLB entry made from `l`. -/
def entry : TLBEntry :=
  ⟨l.pte >>> ptePpnShift, (l.pte ||| requiredBits type) &&& 0xFF, l.isSuperpage,
    cachedFlags_readable type l.readable⟩

/-- The A/D update. -/
def mark (m : Ram) : Ram :=
  if l.pte &&& requiredBits type ≠ requiredBits type then
    Bytes.writeLE m l.addr (l.pte ||| requiredBits type) 4
  else m

end Leaf

/-- Index of a virtual page in its table of the given level. -/
def pageIndex (page : Word) (level : ℕ) : Word := (page >>> (vpnBits * level)) &&& vpnMask

theorem vpn_eq (vaddr : Word) (level : ℕ) :
    vpn vaddr level = pageIndex (vaddr >>> pageShift) level := by
  rw [vpn, pageIndex, BitVec.shiftRight_add]

/-- The leaf for the entry `pte` at `addr` in a table of the given level; a superpage must be
aligned. -/
def mkLeaf (level : ℕ) (addr pte : Word) (h : ¬ (pte &&& pteR = 0 ∧ pte &&& pteW ≠ 0)) :
    Option Leaf :=
  if ha : level = 1 ∧ (pte >>> ptePpnShift) &&& vpnMask ≠ 0 then none
  else some ⟨addr, pte, level = 1, h, fun hl => by
    by_contra hn
    exact ha ⟨of_decide_eq_true hl, hn⟩⟩

/-- The leaf that maps `page`, from the table at `a` of the given level. -/
def findLeafFrom (m : Ram) (page : Word) : ℕ → Word → Option Leaf
  | level, a =>
    let addr := a + pageIndex page level * 4
    let pte := pteAt m addr
    if pte &&& pteV = 0 then none
    else if h : pte &&& pteR = 0 ∧ pte &&& pteW ≠ 0 then none
    else if pte &&& (pteR ||| pteW ||| pteX) ≠ 0 then mkLeaf level addr pte h
    else
      match level with
      | 0 => none
      | level + 1 => findLeafFrom m page level ((pte >>> ptePpnShift) * pageSize)

/-- The table that `satp` points to. -/
def rootTable (satp : Word) : Word := (satp &&& satpPpnMask) * pageSize

/-- The leaf that maps `page`. -/
def findLeaf (m : Ram) (satp page : Word) : Option Leaf := findLeafFrom m page 1 (rootTable satp)

/-! ### The walk -/

/-- What the walk does with the leaf it finds. -/
def finishWalk (pick : Tlb → ℕ) (vaddr : Word) (type : AccessType) (priv : Priv) (mstatus : Word)
    (tlb : Tlb) (m : Ram) : Option Leaf → MMUResult × Tlb × Ram
  | none => (pageFault type, tlb, m)
  | some l =>
    if checkPermissions l.pte type priv mstatus then
      (l.translate type vaddr priv mstatus, tlb.fill pick (vaddr >>> pageShift) (l.entry type),
        l.mark type m)
    else (pageFault type, tlb, m)

section

variable (pick : Tlb → ℕ) (vaddr : Word) (type : AccessType) (priv : Priv) (mstatus : Word)
  (tlb : Tlb) (m : Ram)

theorem walkLeaf_eq (level : ℕ) (addr pte : Word) (h : ¬ (pte &&& pteR = 0 ∧ pte &&& pteW ≠ 0)) :
    walkLeaf ramPt pick vaddr type priv mstatus level addr pte h tlb m =
      finishWalk pick vaddr type priv mstatus tlb m (mkLeaf level addr pte h) := by
  unfold walkLeaf mkLeaf
  by_cases hp : checkPermissions pte type priv mstatus
  · by_cases ha : level = 1 ∧ (pte >>> ptePpnShift) &&& vpnMask ≠ 0
    · simp only [hp, Bool.not_true, Bool.false_eq_true, if_false, dif_pos ha, finishWalk]
      rw [if_pos (by simpa using ha)]
    · simp only [hp, Bool.not_true, Bool.false_eq_true, if_false, dif_neg ha, finishWalk, if_true,
        Leaf.translate, Leaf.entry, Leaf.mark]
      rw [if_neg (by simpa using ha)]
      rfl
  · by_cases ha : level = 1 ∧ (pte >>> ptePpnShift) &&& vpnMask ≠ 0
    · simp only [hp, Bool.not_false, if_true, dif_pos ha, finishWalk]
    · simp only [hp, Bool.not_false, if_true, dif_neg ha, finishWalk, Bool.false_eq_true, if_false]

theorem walkFrom_eq (level : ℕ) (a : Word) :
    walkFrom ramPt pick vaddr type priv mstatus level a tlb m =
      finishWalk pick vaddr type priv mstatus tlb m
        (findLeafFrom m (vaddr >>> pageShift) level a) := by
  rw [walkFrom.eq_def, findLeafFrom.eq_def]
  dsimp only [ramPt]
  rw [vpn_eq]
  generalize pteAt m (a + pageIndex (vaddr >>> pageShift) level * 4) = pte
  by_cases hv : pte &&& pteV = 0
  · rw [if_pos hv, if_pos hv]
    rfl
  rw [if_neg hv, if_neg hv]
  by_cases hr : pte &&& pteR = 0 ∧ pte &&& pteW ≠ 0
  · rw [dif_pos hr, dif_pos hr]
    rfl
  rw [dif_neg hr, dif_neg hr]
  by_cases hl : pte &&& (pteR ||| pteW ||| pteX) ≠ 0
  · rw [if_pos hl, if_pos hl]
    exact walkLeaf_eq pick vaddr type priv mstatus tlb m level _ pte hr
  rw [if_neg hl, if_neg hl]
  cases level with
  | zero => rfl
  | succ level => exact walkFrom_eq level _

end

/-! ### A and D bits -/

/-- The bits that the walk sets. -/
def adBits : Word := pteA ||| pteD

/-- The bits that decide permissions. -/
def permBits : Word := pteR ||| pteW ||| pteX ||| pteU

/-- Equal up to the A and D bits. -/
def PteEq (x y : Word) : Prop := x ||| adBits = y ||| adBits

namespace PteEq

variable {x y : Word}

theorem refl (x : Word) : PteEq x x := rfl

theorem symm (h : PteEq x y) : PteEq y x := Eq.symm h

theorem and (h : PteEq x y) {c : Word} (hc : adBits &&& c = 0) : x &&& c = y &&& c := by
  rw [← Bits.or_and_of_disjoint (x := x) hc, h, Bits.or_and_of_disjoint hc]

theorem ppn (h : PteEq x y) : x >>> ptePpnShift = y >>> ptePpnShift := by
  have hd (w : Word) : (w ||| adBits) >>> ptePpnShift = w >>> ptePpnShift := by
    rw [BitVec.ushiftRight_or_distrib, show adBits >>> ptePpnShift = 0#32 from rfl, BitVec.or_zero]
  rw [← hd x, h, hd y]

theorem or_requiredBits (x : Word) (type : AccessType) : PteEq (x ||| requiredBits type) x := by
  unfold PteEq
  rw [BitVec.or_assoc]
  cases type <;> rfl

end PteEq

theorem checkPermissions_congr {x y : Word} (h : x &&& permBits = y &&& permBits)
    (type : AccessType) (priv : Priv) (mstatus : Word) :
    checkPermissions x type priv mstatus = checkPermissions y type priv mstatus := by
  have sub {c : Word} (hc : permBits &&& c = c) : x &&& c = y &&& c := by
    rw [← hc, ← BitVec.and_assoc, h, BitVec.and_assoc]
  unfold checkPermissions
  rw [sub (c := pteU) rfl, sub (c := pteX) rfl, sub (c := pteR) rfl, sub (c := pteW) rfl,
    sub (c := pteR ||| pteX) rfl]

/-! ### Caching a leaf -/

/-- The same leaf up to its A and D bits. -/
structure Leaf.Same (l l' : Leaf) : Prop where
  addr : l.addr = l'.addr
  isSuperpage : l.isSuperpage = l'.isSuperpage
  pte : PteEq l.pte l'.pte

/-- `e` holds what an access needs of `l`. -/
structure Caches (e : TLBEntry) (l : Leaf) : Prop where
  ppn : e.ppn = l.pte >>> ptePpnShift
  isSuperpage : e.isSuperpage = l.isSuperpage
  perms : e.pteFlags &&& permBits = l.pte &&& permBits

theorem Caches.of_same {e : TLBEntry} {l l' : Leaf} (h : Caches e l) (hs : l.Same l') :
    Caches e l' :=
  ⟨h.ppn.trans hs.pte.ppn, h.isSuperpage.trans hs.isSuperpage, h.perms.trans (hs.pte.and rfl)⟩

theorem Caches.translate_eq {e : TLBEntry} {l : Leaf} (h : Caches e l) (vaddr : Word)
    (type : AccessType) (priv : Priv) (mstatus : Word) :
    e.translate vaddr type priv mstatus = l.translate type vaddr priv mstatus := by
  unfold TLBEntry.translate Leaf.translate
  rw [checkPermissions_congr h.perms, h.ppn, h.isSuperpage]

theorem caches_entry (l : Leaf) (type : AccessType) : Caches (l.entry type) l where
  ppn := rfl
  isSuperpage := rfl
  perms := Bits.or_and_and_of_disjoint (by cases type <;> decide) (by decide)

theorem Leaf.Same.translate_eq {l l' : Leaf} (h : l.Same l') (type : AccessType) (vaddr : Word)
    (priv : Priv) (mstatus : Word) :
    l.translate type vaddr priv mstatus = l'.translate type vaddr priv mstatus := by
  unfold Leaf.translate
  rw [checkPermissions_congr (h.pte.and rfl), h.pte.ppn, h.isSuperpage]

/-! ### Changes of the tables -/

/-- The walk ends at the entry: it is not valid, or a leaf. -/
def EndsWalk (pte : Word) : Prop := pte &&& pteV = 0 ∨ pte &&& (pteR ||| pteW ||| pteX) ≠ 0

instance (pte : Word) : Decidable (EndsWalk pte) := inferInstanceAs (Decidable (_ ∨ _))

theorem not_endsWalk {pte : Word} (hv : ¬ pte &&& pteV = 0)
    (hl : ¬ pte &&& (pteR ||| pteW ||| pteX) ≠ 0) : ¬ EndsWalk pte :=
  not_or.2 ⟨hv, hl⟩

theorem PteEq.endsWalk {x y : Word} (h : PteEq x y) : EndsWalk x ↔ EndsWalk y := by
  unfold EndsWalk
  rw [h.and (c := pteV) rfl, h.and (c := pteR ||| pteW ||| pteX) rfl]

/-- The addresses that a walk for the page reads. -/
def walkWords (m : Ram) (page : Word) : ℕ → Word → List Word
  | level, a =>
    let addr := a + pageIndex page level * 4
    let pte := pteAt m addr
    addr ::
      match level with
      | 0 => []
      | level + 1 =>
        if EndsWalk pte then [] else walkWords m page level ((pte >>> ptePpnShift) * pageSize)

theorem mkLeaf_rel (level : ℕ) (addr : Word) {x y : Word} (h : PteEq x y)
    (hx : ¬ (x &&& pteR = 0 ∧ x &&& pteW ≠ 0)) (hy : ¬ (y &&& pteR = 0 ∧ y &&& pteW ≠ 0)) :
    Option.Rel Leaf.Same (mkLeaf level addr x hx) (mkLeaf level addr y hy) := by
  unfold mkLeaf
  by_cases ha : level = 1 ∧ (x >>> ptePpnShift) &&& vpnMask ≠ 0
  · have ha' := ha
    rw [h.ppn] at ha'
    rw [dif_pos ha, dif_pos ha']
    exact .none
  · have ha' := ha
    rw [h.ppn] at ha'
    rw [dif_neg ha, dif_neg ha']
    exact .some ⟨rfl, rfl, h⟩

/-- A walk reads the same words when they agree up to A and D bits, -/
theorem walkWords_congr {m m' : Ram} {page : Word} {level : ℕ} {a : Word}
    (h : ∀ x ∈ walkWords m' page level a, PteEq (pteAt m x) (pteAt m' x)) :
    walkWords m page level a = walkWords m' page level a := by
  rw [walkWords.eq_def] at h
  dsimp only at h
  have hp := h _ List.mem_cons_self
  rw [walkWords.eq_def, walkWords.eq_def m']
  dsimp only
  cases level with
  | zero => rfl
  | succ level =>
    dsimp only at h ⊢
    rw [hp.ppn]
    by_cases hl : EndsWalk (pteAt m' (a + pageIndex page (level + 1) * 4))
    · rw [if_pos hl, if_pos (hp.endsWalk.2 hl)]
    · rw [if_neg hl] at h ⊢
      rw [if_neg (mt hp.endsWalk.1 hl)]
      exact congrArg _ (walkWords_congr fun x hx => h x (List.mem_cons_of_mem _ hx))

theorem findLeafFrom_congr {m m' : Ram} {page : Word} {level : ℕ} {a : Word}
    (h : ∀ x ∈ walkWords m' page level a, PteEq (pteAt m x) (pteAt m' x)) :
    Option.Rel Leaf.Same (findLeafFrom m page level a) (findLeafFrom m' page level a) := by
  rw [walkWords.eq_def] at h
  dsimp only at h
  have hp := h _ List.mem_cons_self
  rw [findLeafFrom.eq_def, findLeafFrom.eq_def m']
  dsimp only
  generalize hx : pteAt m (a + pageIndex page level * 4) = x at hp ⊢
  generalize hy : pteAt m' (a + pageIndex page level * 4) = y at hp h ⊢
  rw [hp.and (c := pteV) rfl, hp.and (c := pteR ||| pteW ||| pteX) rfl]
  have hr : (x &&& pteR = 0 ∧ x &&& pteW ≠ 0) ↔ (y &&& pteR = 0 ∧ y &&& pteW ≠ 0) := by
    rw [hp.and (c := pteR) rfl, hp.and (c := pteW) rfl]
  split
  · exact .none
  next hv =>
  by_cases hy' : y &&& pteR = 0 ∧ y &&& pteW ≠ 0
  · rw [dif_pos hy', dif_pos (hr.2 hy')]
    exact .none
  rw [dif_neg hy', dif_neg (mt hr.1 hy')]
  split
  · exact mkLeaf_rel level _ hp _ hy'
  next hl =>
    cases level with
    | zero => exact .none
    | succ level =>
      dsimp only at h ⊢
      rw [if_neg (not_endsWalk hv hl)] at h
      rw [hp.ppn]
      exact findLeafFrom_congr fun z hz => h z (List.mem_cons_of_mem _ hz)

theorem mem_walkWords_of_findLeafFrom {m : Ram} {page : Word} {level : ℕ} {a : Word} {l : Leaf}
    (h : findLeafFrom m page level a = some l) : l.addr ∈ walkWords m page level a := by
  rw [findLeafFrom.eq_def] at h
  rw [walkWords.eq_def]
  dsimp only at h ⊢
  split at h
  · cases h
  next hv =>
  split at h
  · cases h
  split at h
  · unfold mkLeaf at h
    split at h
    · cases h
    · cases h
      exact List.mem_cons_self
  next hl =>
    cases level with
    | zero => cases h
    | succ level =>
      dsimp only
      rw [if_neg (not_endsWalk hv hl)]
      exact List.mem_cons_of_mem _ (mem_walkWords_of_findLeafFrom h)

/-! ### Aligned words -/

/-- The address of a word. -/
def IsAligned (a : Word) : Prop := a &&& 3 = 0

theorem isAligned_iff {a : Word} : IsAligned a ↔ 4 ∣ a.toNat :=
  Bits.and_low_eq_zero_iff (k := 2) a (by decide)

theorem IsAligned.add {a b : Word} (ha : IsAligned a) (hb : IsAligned b) : IsAligned (a + b) := by
  rw [isAligned_iff, BitVec.toNat_add] at *
  omega

theorem isAligned_mul_four (a : Word) : IsAligned (a * 4) := by
  rw [isAligned_iff, BitVec.toNat_mul]
  change 4 ∣ a.toNat * 4 % 2 ^ 32
  omega

theorem isAligned_mul_pageSize (a : Word) : IsAligned (a * pageSize) := by
  rw [isAligned_iff, BitVec.toNat_mul]
  change 4 ∣ a.toNat * 4096 % 2 ^ 32
  omega

theorem pteAt_writeLE_self (m : Ram) (a x : Word) : pteAt (Bytes.writeLE m a x 4) a = x :=
  Bytes.readLE_writeLE (by decide) (by decide) a x

theorem pteAt_writeLE_of_ne (m : Ram) {a b : Word} (ha : IsAligned a) (hb : IsAligned b)
    (hab : b ≠ a) (x : Word) : pteAt (Bytes.writeLE m a x 4) b = pteAt m b := by
  refine Bytes.readLE_writeLE_of_disjoint (by decide) (fun i hi => ?_) x
  rw [isAligned_iff] at ha hb
  have hne : b.toNat ≠ a.toNat := fun h => hab (BitVec.eq_of_toNat_eq h)
  have hi' : (BitVec.ofNat 32 i).toNat = i := by
    rw [BitVec.toNat_ofNat, Nat.mod_eq_of_lt (by omega)]
  rw [BitVec.toNat_sub, BitVec.toNat_add, hi']
  omega

theorem isAligned_of_mem_walkWords {m : Ram} {page : Word} {level : ℕ} {a x : Word}
    (ha : IsAligned a) (hx : x ∈ walkWords m page level a) : IsAligned x := by
  rw [walkWords.eq_def] at hx
  rcases List.mem_cons.1 hx with rfl | hx
  · exact ha.add (isAligned_mul_four _)
  · cases level with
    | zero => cases hx
    | succ level =>
      dsimp only at hx
      split at hx
      · cases hx
      · exact isAligned_of_mem_walkWords (isAligned_mul_pageSize _) hx

/-- A leaf is the entry at its address, which is the address of a word. -/
theorem findLeafFrom_spec {m : Ram} {page : Word} {level : ℕ} {a : Word} {l : Leaf}
    (ha : IsAligned a) (h : findLeafFrom m page level a = some l) :
    IsAligned l.addr ∧ l.pte = pteAt m l.addr := by
  rw [findLeafFrom.eq_def] at h
  dsimp only at h
  split at h
  · cases h
  split at h
  · cases h
  split at h
  · unfold mkLeaf at h
    split at h
    · cases h
    · cases h
      exact ⟨ha.add (isAligned_mul_four _), rfl⟩
  · cases level with
    | zero => cases h
    | succ level => exact findLeafFrom_spec (isAligned_mul_pageSize _) h

theorem findLeaf_spec {m : Ram} {satp page : Word} {l : Leaf} (h : findLeaf m satp page = some l) :
    IsAligned l.addr ∧ l.pte = pteAt m l.addr :=
  findLeafFrom_spec (isAligned_mul_pageSize _) h

/-! ### The A/D update -/

/-- `m'` is `m` with A and D bits of some table entries set. -/
structure AdLe (m m' : Ram) : Prop where
  pteEq (a : Word) (ha : IsAligned a) : PteEq (pteAt m a) (pteAt m' a)
  mono (a : Word) (ha : IsAligned a) (c : Word) (hc : pteAt m a &&& c = c) : pteAt m' a &&& c = c

namespace AdLe

theorem refl (m : Ram) : AdLe m m := ⟨fun _ _ => .refl _, fun _ _ _ h => h⟩

end AdLe

namespace Leaf

variable {m : Ram} {l : Leaf}

/-- After the A/D update the leaf holds the required bits. -/
theorem pteAt_mark (h : l.pte = pteAt m l.addr) (type : AccessType) :
    pteAt (l.mark type m) l.addr = l.pte ||| requiredBits type := by
  unfold mark
  split
  · exact pteAt_writeLE_self m _ _
  next hb => rw [← h, Bits.or_eq_self_of_subset (not_not.1 hb)]

theorem pteAt_mark_of_ne (ha : IsAligned l.addr) (type : AccessType) {b : Word} (hb : IsAligned b)
    (hne : b ≠ l.addr) : pteAt (l.mark type m) b = pteAt m b := by
  unfold mark
  split
  · exact pteAt_writeLE_of_ne m ha hb hne _
  · rfl

theorem adLe_mark (ha : IsAligned l.addr) (h : l.pte = pteAt m l.addr) (type : AccessType) :
    AdLe m (l.mark type m) := by
  constructor
  · intro b hb
    by_cases hne : b = l.addr
    · rw [hne, pteAt_mark h, h]
      exact (PteEq.or_requiredBits _ type).symm
    · rw [pteAt_mark_of_ne ha type hb hne]
      exact .refl _
  · intro b hb c hc
    by_cases hne : b = l.addr
    · rw [hne, ← h] at hc
      rw [hne, pteAt_mark h]
      exact Bits.or_and_of_subset hc
    · rw [pteAt_mark_of_ne ha type hb hne]
      exact hc

end Leaf

/-- Setting A and D bits changes no leaf otherwise. -/
theorem AdLe.findLeaf_rel {m m' : Ram} (h : AdLe m m') (satp page : Word) :
    Option.Rel Leaf.Same (VirtualSoC.findLeaf m satp page) (VirtualSoC.findLeaf m' satp page) :=
  findLeafFrom_congr fun x hx =>
    h.pteEq x (isAligned_of_mem_walkWords (isAligned_mul_pageSize _) hx)

/-- The leaf that `m` has for a page is there in `m'` too. -/
theorem AdLe.findLeaf {m m' : Ram} (h : AdLe m m') {satp page : Word} {l : Leaf}
    (hl : VirtualSoC.findLeaf m satp page = some l) :
    ∃ l', VirtualSoC.findLeaf m' satp page = some l' ∧ l.Same l' ∧ l'.pte = pteAt m' l.addr := by
  have hr := h.findLeaf_rel satp page
  rw [hl] at hr
  cases hl' : VirtualSoC.findLeaf m' satp page with
  | none =>
    rw [hl'] at hr
    cases hr
  | some l' =>
    rw [hl'] at hr
    cases hr with
    | some hs => exact ⟨l', rfl, hs, hs.addr ▸ (findLeaf_spec hl').2⟩

/-! ### Translation -/

section Translate

variable (pick : Tlb → ℕ) (vaddr : Word) (type : AccessType) (priv : Priv) (satp mstatus : Word)
  (tlb : Tlb) (m : Ram)

/-- A translation that hits leaves everything as it is. -/
theorem translate_hit {β : Type*} (pm : PtMem β) (b : β)
    (hsv : satp >>> satpModeShift ≠ satpModeBare) {e : TLBEntry}
    (h : tlb.lookup (vaddr >>> pageShift) = some e) :
    translate pm pick vaddr type priv satp mstatus tlb b =
      (e.translate vaddr type priv mstatus, tlb, b) := by
  rw [translate, if_neg hsv, h]

theorem translate_miss {β : Type*} (pm : PtMem β) (b : β)
    (hsv : satp >>> satpModeShift ≠ satpModeBare) (h : tlb.lookup (vaddr >>> pageShift) = none) :
    translate pm pick vaddr type priv satp mstatus tlb b =
      walk pm pick vaddr type priv satp mstatus tlb b := by
  rw [translate, if_neg hsv, h]

theorem walk_eq :
    walk ramPt pick vaddr type priv satp mstatus tlb m =
      finishWalk pick vaddr type priv mstatus tlb m (findLeaf m satp (vaddr >>> pageShift)) :=
  walkFrom_eq pick vaddr type priv mstatus tlb m 1 _

theorem translate_miss_ram (hsv : satp >>> satpModeShift ≠ satpModeBare)
    (h : tlb.lookup (vaddr >>> pageShift) = none) :
    translate ramPt pick vaddr type priv satp mstatus tlb m =
      finishWalk pick vaddr type priv mstatus tlb m (findLeaf m satp (vaddr >>> pageShift)) :=
  (translate_miss pick vaddr type priv satp mstatus tlb ramPt m hsv h).trans
    (walk_eq pick vaddr type priv satp mstatus tlb m)

/-- An access that a leaf or an entry refuses gets `pageFault`. -/
theorem checked_fault {c : Prop} [Decidable c] {paddr : Word}
    (h : (if c then (⟨paddr, false, 0⟩ : MMUResult) else pageFault type).fault) :
    ¬ c ∧ (if c then (⟨paddr, false, 0⟩ : MMUResult) else pageFault type) = pageFault type := by
  by_cases hc : c
  · rw [if_pos hc] at h
    cases h
  · exact ⟨hc, if_neg hc⟩

/-- A translation over RAM that faults changes nothing. -/
theorem translate_fault
    (h : (translate ramPt pick vaddr type priv satp mstatus tlb m).1.fault) :
    translate ramPt pick vaddr type priv satp mstatus tlb m = (pageFault type, tlb, m) := by
  by_cases hsv : satp >>> satpModeShift = satpModeBare
  · rw [translate, if_pos hsv] at h
    cases h
  cases ht : tlb.lookup (vaddr >>> pageShift) with
  | some e =>
    rw [translate_hit pick vaddr type priv satp mstatus tlb ramPt m hsv ht] at h ⊢
    exact congrArg (·, tlb, m) (checked_fault type h).2
  | none =>
    rw [translate_miss_ram pick vaddr type priv satp mstatus tlb m hsv ht] at h ⊢
    cases hl : findLeaf m satp (vaddr >>> pageShift) with
    | none => rfl
    | some l =>
      rw [hl] at h
      by_cases hp : checkPermissions l.pte type priv mstatus
      · simp only [finishWalk, if_pos hp, Leaf.translate] at h
        cases h
      · exact if_neg hp

/-- After a translation that does not fault, the TLB has the page. -/
theorem lookup_of_not_fault (hsv : satp >>> satpModeShift ≠ satpModeBare)
    (h : ¬ (translate ramPt pick vaddr type priv satp mstatus tlb m).1.fault) :
    ∃ e, (translate ramPt pick vaddr type priv satp mstatus tlb m).2.1.lookup
      (vaddr >>> pageShift) = some e := by
  cases ht : tlb.lookup (vaddr >>> pageShift) with
  | some e =>
    rw [translate_hit pick vaddr type priv satp mstatus tlb ramPt m hsv ht]
    exact ⟨e, ht⟩
  | none =>
    rw [translate_miss_ram pick vaddr type priv satp mstatus tlb m hsv ht] at h ⊢
    cases hl : findLeaf m satp (vaddr >>> pageShift) with
    | none =>
      rw [hl] at h
      exact absurd rfl h
    | some l =>
      rw [hl] at h
      by_cases hp : checkPermissions l.pte type priv mstatus
      · simp only [finishWalk, if_pos hp]
        exact ⟨_, AList.lookup_insert _⟩
      · simp only [finishWalk, if_neg hp] at h
        exact absurd rfl h

/-- Whoever may store may load, except through an entry with W but not R. -/
theorem checkPermissions_load {x : Word} (hx : x &&& pteW ≠ 0 → x &&& pteR ≠ 0)
    (h : checkPermissions x .store priv mstatus) : checkPermissions x .load priv mstatus := by
  have hor (hr : x &&& pteR ≠ 0) : x &&& (pteR ||| pteX) ≠ 0 := by
    rw [BitVec.and_or_distrib_left]
    exact fun h0 => hr (BitVec.or_eq_zero_iff.1 h0).1
  unfold checkPermissions at h ⊢
  dsimp only at h ⊢
  split at h
  · cases h
  next hu =>
    rw [if_neg hu]
    split at h
    · cases h
    next hs =>
      have hr := hx (of_decide_eq_true h)
      rw [if_neg hs]
      split
      · exact decide_eq_true (hor hr)
      · exact decide_eq_true hr

theorem translate_store_fault
    (h : (translate ramPt pick vaddr .load priv satp mstatus tlb m).1.fault) :
    (translate ramPt pick vaddr .store priv satp mstatus tlb m).1.fault := by
  by_cases hsv : satp >>> satpModeShift = satpModeBare
  · rw [translate, if_pos hsv] at h
    cases h
  cases ht : tlb.lookup (vaddr >>> pageShift) with
  | some e =>
    rw [translate_hit pick vaddr _ priv satp mstatus tlb ramPt m hsv ht] at h ⊢
    have hp := (checked_fault .load h).1
    have hs : ¬ checkPermissions e.pteFlags .store priv mstatus :=
      fun hs => hp (checkPermissions_load priv mstatus e.readable hs)
    dsimp only [TLBEntry.translate]
    rw [if_neg hs]
    rfl
  | none =>
    rw [translate_miss_ram pick vaddr _ priv satp mstatus tlb m hsv ht] at h ⊢
    cases hl : findLeaf m satp (vaddr >>> pageShift) with
    | none => rfl
    | some l =>
      rw [hl] at h
      have hp : ¬ checkPermissions l.pte .load priv mstatus := by
        intro hp
        simp only [finishWalk, if_pos hp, Leaf.translate] at h
        cases h
      have hs : ¬ checkPermissions l.pte .store priv mstatus :=
        fun hs => hp (checkPermissions_load priv mstatus (fun hw hr => l.readable ⟨hr, hw⟩) hs)
      simp only [finishWalk, if_neg hs]
      rfl

/-- The answer of the walk: it does not depend on the TLB. -/
def resolve : MMUResult :=
  match findLeaf m satp (vaddr >>> pageShift) with
  | none => pageFault type
  | some l => l.translate type vaddr priv mstatus

theorem resolve_congr {m m' : Ram}
    (h : Option.Rel Leaf.Same (findLeaf m satp (vaddr >>> pageShift))
      (findLeaf m' satp (vaddr >>> pageShift))) :
    resolve vaddr type priv satp mstatus m = resolve vaddr type priv satp mstatus m' := by
  unfold resolve
  generalize findLeaf m satp (vaddr >>> pageShift) = o at h ⊢
  generalize findLeaf m' satp (vaddr >>> pageShift) = o' at h ⊢
  cases h with
  | none => rfl
  | some hs => exact hs.translate_eq type vaddr priv mstatus

theorem finishWalk_fst (o : Option Leaf) :
    (finishWalk pick vaddr type priv mstatus tlb m o).1 =
      match o with
      | none => pageFault type
      | some l => l.translate type vaddr priv mstatus := by
  cases o with
  | none => rfl
  | some l =>
    unfold finishWalk Leaf.translate
    by_cases hp : checkPermissions l.pte type priv mstatus
    · simp only [if_pos hp]
    · simp only [if_neg hp]

theorem walk_fst :
    (walk ramPt pick vaddr type priv satp mstatus tlb m).1 =
      resolve vaddr type priv satp mstatus m := by
  rw [walk_eq, finishWalk_fst]
  rfl

end Translate

theorem Tlb.lookup_of_eraseBegin {tlb : Tlb} {pick : Tlb → ℕ} {k : Word} {e : TLBEntry}
    (h : (tlb.eraseBegin pick).lookup k = some e) : tlb.lookup k = some e := by
  unfold eraseBegin at h
  split at h
  next k' _ =>
    by_cases hk : k = k'
    · rw [hk, AList.lookup_erase] at h
      cases h
    · rwa [AList.lookup_erase_ne hk] at h
  · exact h

/-- A lookup after a fill finds the new entry or an old one. -/
theorem Tlb.lookup_fill {tlb : Tlb} {pick : Tlb → ℕ} {key k : Word} {e e' : TLBEntry}
    (h : (tlb.fill pick key e).lookup k = some e') :
    k = key ∧ e' = e ∨ tlb.lookup k = some e' := by
  unfold fill at h
  by_cases hk : k = key
  · rw [hk, AList.lookup_insert] at h
    exact .inl ⟨hk, (Option.some.inj h).symm⟩
  · rw [AList.lookup_insert_ne hk] at h
    by_cases hsize : tlb.keys.length ≥ tlbSize
    · rw [if_pos hsize] at h
      exact .inr (lookup_of_eraseBegin h)
    · rw [if_neg hsize] at h
      exact .inr h

/-! ### What a translation changes -/

section

variable (pick : Tlb → ℕ) (vaddr : Word) (type : AccessType) (priv : Priv) (satp mstatus : Word)
  (tlb : Tlb) (m : Ram)

/-- What a translation does to the TLB and to memory: nothing, or it finds a leaf, caches it and
sets its A and D bits. -/
theorem translate_effect :
    (translate ramPt pick vaddr type priv satp mstatus tlb m).2 = (tlb, m) ∨
      ∃ l, findLeaf m satp (vaddr >>> pageShift) = some l ∧
        (translate ramPt pick vaddr type priv satp mstatus tlb m).2 =
          (tlb.fill pick (vaddr >>> pageShift) (l.entry type), l.mark type m) := by
  by_cases hsv : satp >>> satpModeShift = satpModeBare
  · rw [translate, if_pos hsv]
    exact .inl rfl
  cases ht : tlb.lookup (vaddr >>> pageShift) with
  | some e =>
    rw [translate_hit pick vaddr type priv satp mstatus tlb ramPt m hsv ht]
    exact .inl rfl
  | none =>
    rw [translate_miss_ram pick vaddr type priv satp mstatus tlb m hsv ht]
    cases hl : findLeaf m satp (vaddr >>> pageShift) with
    | none => exact .inl rfl
    | some l =>
      by_cases hp : checkPermissions l.pte type priv mstatus
      · exact .inr ⟨l, rfl, by simp only [finishWalk, if_pos hp]⟩
      · exact .inl (by simp only [finishWalk, if_neg hp])

/-- A translation changes A and D bits of the tables only. -/
theorem adLe_translate :
    AdLe m (translate ramPt pick vaddr type priv satp mstatus tlb m).2.2 := by
  rcases translate_effect pick vaddr type priv satp mstatus tlb m with h | ⟨l, hl, h⟩
  · rw [h]
    exact .refl m
  · rw [h]
    exact Leaf.adLe_mark (findLeaf_spec hl).1 (findLeaf_spec hl).2 type

/-- An entry in the TLB after a translation was there before, or is the leaf just found. -/
theorem lookup_translate {k : Word} {e : TLBEntry}
    (h : (translate ramPt pick vaddr type priv satp mstatus tlb m).2.1.lookup k = some e) :
    tlb.lookup k = some e ∨
      ∃ l, findLeaf m satp k = some l ∧ e = l.entry type ∧
        (translate ramPt pick vaddr type priv satp mstatus tlb m).2.2 = l.mark type m := by
  rcases translate_effect pick vaddr type priv satp mstatus tlb m with h' | ⟨l, hl, h'⟩
  · rw [h'] at h
    exact .inl h
  · rw [h'] at h ⊢
    rcases Tlb.lookup_fill h with ⟨rfl, rfl⟩ | hold
    · exact .inr ⟨l, hl, rfl, rfl⟩
    · exact .inl hold

end

end VirtualSoC
