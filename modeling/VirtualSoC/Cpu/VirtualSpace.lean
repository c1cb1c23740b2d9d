import VirtualSoC.Cpu.ProgramSpec

/-!
# Programs in virtual memory

An `AddressSpace` is what an operating system sets up for a program below machine mode: page tables
in the RAM whose accessible pages are frames of the RAM, no writable frame twice and none of the
tables among them.

In it the MMU, with its walks, its A/D updates and its TLB, gives the program a memory of its own
(`serves_virtual`): the program runs as it does on plain memory at its virtual addresses.
-/

namespace VirtualSoC

open Isa

/-! ### Pages -/

/-- The page tables in `r` map `a` to `p` for accesses of the type. -/
def Maps (r : Ram) (c : HartMode) (type : AccessType) (a p : Word) : Prop :=
  resolve a type c.priv c.satp c.mstatus r = ⟨p, false, 0⟩

/-- The words of the page tables that a walk for `a` reads. -/
def tableWords (r : Ram) (c : HartMode) (a : Word) : List Word :=
  walkWords r (a >>> pageShift) 1 (rootTable c.satp)

section

variable {r r' : Ram} {c : HartMode} {type type' : AccessType} {a p q : Word} {k : ℕ}

theorem maps_iff : Maps r c type a p ↔ ∃ l, findLeaf r c.satp (a >>> pageShift) = some l ∧
    checkPermissions l.pte type c.priv c.mstatus ∧
      leafPaddr (l.pte >>> ptePpnShift) l.isSuperpage a = p := by
  unfold Maps resolve
  cases findLeaf r c.satp (a >>> pageShift) with
  | none => exact iff_of_false nofun (by simp)
  | some l =>
    unfold Leaf.translate
    by_cases hp : checkPermissions l.pte type c.priv c.mstatus
    · simp [hp]
    · simp [hp, pageFault]

theorem Maps.unique (h : Maps r c type a p) (h' : Maps r c type' a q) : p = q := by
  obtain ⟨l, hl, -, rfl⟩ := maps_iff.1 h
  obtain ⟨l', hl', -, rfl⟩ := maps_iff.1 h'
  cases hl.symm.trans hl'
  rfl

theorem Maps.load (h : Maps r c .store a p) : Maps r c .load a p := by
  obtain ⟨l, hl, hp, rfl⟩ := maps_iff.1 h
  exact maps_iff.2 ⟨l, hl,
    checkPermissions_load _ _ (fun hw hr => l.readable ⟨hr, hw⟩) hp, rfl⟩

theorem toNat_and_ones (x : Word) {n : ℕ} (hn : n < 32) :
    (x &&& BitVec.ofNat 32 (2 ^ n - 1)).toNat = x.toNat % 2 ^ n := by
  have hlt : 2 ^ n - 1 < 2 ^ 32 :=
    Nat.lt_of_le_of_lt (Nat.sub_le _ _) (Nat.pow_lt_pow_right (by decide) hn)
  rw [BitVec.toNat_and, BitVec.toNat_ofNat, Nat.mod_eq_of_lt hlt, Nat.and_two_pow_sub_one_eq_mod]

theorem toNat_or_offset (x a : Word) {n : ℕ} (hn : n < 32) (hx : 2 ^ n ∣ x.toNat) :
    (x ||| (a &&& BitVec.ofNat 32 (2 ^ n - 1))).toNat = x.toNat + a.toNat % 2 ^ n := by
  obtain ⟨y, hy⟩ := hx
  rw [BitVec.toNat_or, toNat_and_ones a hn, hy]
  exact (Nat.two_pow_add_eq_or_of_lt (Nat.mod_lt _ (Nat.two_pow_pos n)) y).symm

/-- The frame of a leaf, which has the size of a page or of a superpage. -/
theorem exists_leafPaddr (ppn : Word) (isSuperpage : Bool) : ∃ f n, (n = 12 ∨ n = 22) ∧ 2 ^ n ∣ f ∧
    ∀ a, (leafPaddr ppn isSuperpage a).toNat = f + a.toNat % 2 ^ n := by
  have hshift (x : Word) : (x <<< pageShift).toNat = x.toNat * 4096 % 4294967296 := by
    rw [BitVec.toNat_shiftLeft, Nat.shiftLeft_eq]
    rfl
  cases isSuperpage with
  | false =>
    have hdvd : 2 ^ 12 ∣ (ppn <<< pageShift).toNat := by
      rw [hshift]
      omega
    exact ⟨_, 12, .inl rfl, hdvd, fun a => toNat_or_offset _ a (n := 12) (by decide) hdvd⟩
  | true =>
    have hlow : (ppn &&& ~~~0x3FF) &&& BitVec.ofNat 32 (2 ^ 10 - 1) = 0 := by
      rw [BitVec.and_assoc]
      exact BitVec.and_zero
    obtain ⟨y, hy⟩ := (Bits.and_low_eq_zero_iff (k := 10) _ (by decide)).1 hlow
    have hdvd : 2 ^ 22 ∣ ((ppn &&& ~~~0x3FF) <<< pageShift).toNat := by
      rw [hshift, hy]
      omega
    exact ⟨_, 22, .inr rfl, hdvd, fun a => toNat_or_offset _ a (n := 22) (by decide) hdvd⟩

variable (hk : a.toNat % 4096 + k < 4096)

include hk

omit hk in
theorem toNat_add_offset {x : Word} (hk : x.toNat % 4096 + k < 4096) :
    (x + BitVec.ofNat 32 k).toNat = x.toNat + k := by
  have hx := x.isLt
  rw [BitVec.toNat_add, BitVec.toNat_ofNat]
  omega

theorem Maps.add (h : Maps r c type a p) :
    Maps r c type (a + BitVec.ofNat 32 k) (p + BitVec.ofNat 32 k) ∧
      p.toNat % 4096 = a.toNat % 4096 := by
  obtain ⟨l, hl, hp, rfl⟩ := maps_iff.1 h
  obtain ⟨f, n, hn, hf, haddr⟩ := exists_leafPaddr (l.pte >>> ptePpnShift) l.isSuperpage
  have hpage : (a + BitVec.ofNat 32 k) >>> pageShift = a >>> pageShift := by
    apply BitVec.eq_of_toNat_eq
    rw [BitVec.toNat_ushiftRight, BitVec.toNat_ushiftRight, toNat_add_offset hk,
      Nat.shiftRight_eq_div_pow, Nat.shiftRight_eq_div_pow]
    change (a.toNat + k) / 4096 = a.toNat / 4096
    omega
  have hoff : (leafPaddr (l.pte >>> ptePpnShift) l.isSuperpage a).toNat % 4096 =
      a.toNat % 4096 := by
    rw [haddr]
    rcases hn with rfl | rfl <;> omega
  refine ⟨maps_iff.2 ⟨l, hpage ▸ hl, hp, ?_⟩, hoff⟩
  apply BitVec.eq_of_toNat_eq
  rw [toNat_add_offset (hoff ▸ hk), haddr, haddr, toNat_add_offset hk]
  rcases hn with rfl | rfl <;> omega

end

/-! ### Translations -/

/-- The TLB holds leaves of the tables in `r₀`. -/
def CachesLeaves (r₀ : Ram) (c : HartMode) (tlb : Tlb) : Prop :=
  ∀ k e, tlb.lookup k = some e → ∃ l, findLeaf r₀ c.satp k = some l ∧ Caches e l

/-- What a translation for `a` does to the RAM: nothing, or the A/D update of the leaf that is in
`r₀`, up to its A and D bits. -/
inductive Marks (r₀ : Ram) (c : HartMode) (type : AccessType) (a : Word) (r : Ram) : Ram → Prop
  | none : Marks r₀ c type a r r
  | leaf {l l' : Leaf} (hl : findLeaf r₀ c.satp (a >>> pageShift) = some l) (hs : l'.Same l)
      (ha : IsAligned l'.addr) (hp : l'.pte = pteAt r l'.addr) :
      Marks r₀ c type a r (l'.mark type r)

section Translate

variable {β : Type*} {bus : PhysBus β} {lo hi : ℕ} {View : β → Ram → Prop} {r₀ r r' : Ram}
  {c : HartMode} {type : AccessType} {a x q : Word} {tlb : Tlb}

theorem Marks.pteEq (h : Marks r₀ c type a r r') (hx : IsAligned x) :
    PteEq (pteAt r' x) (pteAt r x) := by
  cases h with
  | none => exact .refl _
  | leaf hl hs ha hp => exact ((Leaf.adLe_mark ha hp type).pteEq x hx).symm

theorem Marks.apart (h : Marks r₀ c type a r r')
    (hq : ∀ x ∈ tableWords r₀ c a, 4 ≤ (q - x).toNat) : r' q = r q := by
  cases h with
  | none => rfl
  | leaf hl hs ha hp =>
    rename_i l l'
    have hfar := hq l'.addr (hs.addr ▸ mem_walkWords_of_findLeafFrom hl)
    unfold Leaf.mark
    split
    · rw [Bytes.writeLE_apply (by decide), if_neg (by omega)]
    · rfl

/-- Over a bus a translation answers by the tables in `r₀`, when those in the RAM are like them. -/
theorem RamAt.translate (hr : RamAt bus lo hi View) (pick : Tlb → ℕ)
    (hsv : c.satp >>> satpModeShift ≠ satpModeBare)
    (htables : ∀ x ∈ tableWords r₀ c a, PteEq (pteAt r x) (pteAt r₀ x))
    (hwords : ∀ x ∈ tableWords r₀ c a, InRamWord lo hi x) (hcached : CachesLeaves r₀ c tlb) {b : β}
    (hv : View b r) : ∃ tlb' b' r',
      VirtualSoC.translate bus.ptMem pick a type c.priv c.satp c.mstatus tlb b =
        (resolve a type c.priv c.satp c.mstatus r₀, tlb', b') ∧
      View b' r' ∧ Marks r₀ c type a r r' ∧ CachesLeaves r₀ c tlb' := by
  cases hlookup : tlb.lookup (a >>> pageShift) with
  | some e =>
    obtain ⟨l, hl, he⟩ := hcached _ _ hlookup
    refine ⟨tlb, b, r, ?_, hv, .none, hcached⟩
    rw [translate_hit pick a type c.priv c.satp c.mstatus tlb bus.ptMem b hsv hlookup,
      he.translate_eq, resolve, hl]
  | none =>
    have hsame : Option.Rel Leaf.Same (findLeaf r c.satp (a >>> pageShift))
        (findLeaf r₀ c.satp (a >>> pageShift)) := findLeafFrom_congr htables
    have hreads : ∀ x ∈ walkWords r (a >>> pageShift) 1 (rootTable c.satp), InRamWord lo hi x := by
      rw [walkWords_congr htables]
      exact hwords
    obtain ⟨h1, h2, h3⟩ := hr.walk pick a type c.priv c.satp c.mstatus tlb hv hreads
    rw [walk_eq] at h1 h2 h3
    rw [translate_miss pick a type c.priv c.satp c.mstatus tlb bus.ptMem b hsv hlookup]
    refine ⟨_, _, _, Prod.ext (h1.trans ?_) (Prod.ext h2 rfl), h3, ?_⟩
    · rw [finishWalk_fst]
      exact resolve_congr a type c.priv c.satp c.mstatus hsame
    · cases hf : findLeaf r c.satp (a >>> pageShift) with
      | none => exact ⟨.none, hcached⟩
      | some l' =>
        rw [hf] at hsame
        generalize ho : findLeaf r₀ c.satp (a >>> pageShift) = o at hsame
        cases hsame with
        | some hs =>
          dsimp only [finishWalk]
          by_cases hperm : checkPermissions l'.pte type c.priv c.mstatus
          · rw [if_pos hperm]
            obtain ⟨ha, hp⟩ := findLeaf_spec hf
            refine ⟨.leaf ho hs ha hp, fun k e hfind => ?_⟩
            rcases Tlb.lookup_fill hfind with ⟨rfl, rfl⟩ | hold
            · exact ⟨_, ho, (caches_entry l' type).of_same hs⟩
            · exact hcached k e hold
          · rw [if_neg hperm]
            exact ⟨.none, hcached⟩

end Translate

/-! ### Address spaces -/

/-- What the page tables in `r₀` are, for a program in the mode `c` and a RAM from `lo` up to
`hi`. -/
structure AddressSpace (r₀ : Ram) (c : HartMode) (lo hi : ℕ) : Prop where
  priv : c.priv < prvM
  sv32 : c.satp >>> satpModeShift ≠ satpModeBare
  frame {type : AccessType} {a p : Word} (h : Maps r₀ c type a p) : lo ≤ p.toNat ∧ p.toNat < hi
  /-- A writable byte has one address. -/
  unaliased {type : AccessType} {a b p : Word} (hw : Maps r₀ c .store a p)
    (h : Maps r₀ c type b p) : b = a
  tables {type : AccessType} {a p : Word} (h : Maps r₀ c type a p) :
    ∀ x ∈ tableWords r₀ c a, InRamWord lo hi x
  /-- The tables are not accessible. -/
  apart {type type' : AccessType} {a p b q : Word} (h : Maps r₀ c type a p)
    (h' : Maps r₀ c type' b q) : ∀ x ∈ tableWords r₀ c a, 4 ≤ (q - x).toNat

/-- The addresses that the page tables map.  A fetch reads four bytes of the frame. -/
def virtualSpace (r₀ : Ram) (c : HartMode) : Space where
  fetch a := (∃ p, Maps r₀ c .fetch a p) ∧ a &&& 0xFFF ≠ 0xFFE
  load a := ∃ p, Maps r₀ c .load a p
  store a := ∃ p, Maps r₀ c .store a p

/-- The program sees its memory `m` in the RAM `r`: the tables are those of `r₀` up to their A and D
bits, and the TLB holds leaves of them. -/
structure Virtual (r₀ : Ram) (c : HartMode) (tlb : Tlb) (r : Ram) (m : Isa.Mem) : Prop where
  tables {type : AccessType} {a p : Word} (h : Maps r₀ c type a p) :
    ∀ x ∈ tableWords r₀ c a, PteEq (pteAt r x) (pteAt r₀ x)
  content {type : AccessType} {a p : Word} (h : Maps r₀ c type a p) : m a = r p
  cached {k : Word} {e : TLBEntry} (h : tlb.lookup k = some e) :
    ∃ l, findLeaf r₀ c.satp k = some l ∧ Caches e l

/-- The addresses `K` are neither in a page nor in a table. -/
structure SpaceApart (K : Set ℕ) (r₀ : Ram) (c : HartMode) : Prop where
  page {type : AccessType} {a p : Word} (h : Maps r₀ c type a p) : p.toNat ∉ K
  table {type : AccessType} {a p : Word} (h : Maps r₀ c type a p) :
    ∀ x ∈ tableWords r₀ c a, ∀ q : Word, q.toNat ∈ K → 4 ≤ (q - x).toNat

theorem SpaceApart.empty (r₀ : Ram) (c : HartMode) : SpaceApart ∅ r₀ c :=
  ⟨fun _ hq => hq, fun _ _ _ _ hq => hq.elim⟩

theorem PteEq.trans {x y z : Word} (h : PteEq x y) (h' : PteEq y z) : PteEq x z := Eq.trans h h'

/-- **The MMU resolves what the page tables map**, and what it does to them and to the TLB does not
change what the program sees. -/
theorem Virtual.translate {β : Type*} {bus : PhysBus β} {lo hi : ℕ} {View : β → Ram → Prop}
    {r₀ r : Ram} {c : HartMode} (hspace : AddressSpace r₀ c lo hi) {tlb : Tlb} {m : Isa.Mem}
    {type : AccessType} {a p : Word} (hr : RamAt bus lo hi View) (pick : Tlb → ℕ) {b : β}
    (hv : View b r) (h : Virtual r₀ c tlb r m) (ha : Maps r₀ c type a p) :
    ∃ tlb' b' r', VirtualSoC.translate bus.ptMem pick a type c.priv c.satp c.mstatus tlb b =
      (⟨p, false, 0⟩, tlb', b') ∧ View b' r' ∧ Virtual r₀ c tlb' r' m ∧ Marks r₀ c type a r r' := by
  obtain ⟨tlb', b', r', ht, hv', hmarks, hcached⟩ := hr.translate pick hspace.sv32
    (h.tables ha) (hspace.tables ha) (fun _ _ => h.cached) hv
  refine ⟨tlb', b', r', ht.trans (by rw [ha]), hv', ⟨fun hb x hx => ?_, fun {_ b q} hb => ?_,
    hcached _ _⟩, hmarks⟩
  · have haligned := isAligned_of_mem_walkWords (isAligned_mul_pageSize _) hx
    exact (hmarks.pteEq haligned).trans (h.tables hb x hx)
  · rw [h.content hb, hmarks.apart fun x hx => hspace.apart ha hb x hx]

/-! ### Accesses -/

section Accesses

variable {lo hi : ℕ} {r₀ r : Ram} {c : HartMode} (hspace : AddressSpace r₀ c lo hi) {tlb : Tlb}
  {m : Isa.Mem} {type : AccessType} {a p : Word} {k : ℕ}

theorem AlignedAccess.inPage (h : AlignedAccess a k) :
    (0 < k ∧ k ≤ 4) ∧ a.toNat % 4096 + k ≤ 4096 := by
  rcases h with rfl | ⟨rfl, h⟩ | ⟨rfl, h⟩
  · omega
  · have h2 := (Bits.and_low_eq_zero_iff (k := 1) a (by decide)).1 h
    omega
  · have h4 := isAligned_iff.1 h
    omega

theorem readLE_eq_of_bytes {m m' : Ram} (h : ∀ i < k, m (a + BitVec.ofNat 32 i) =
    m' (p + BitVec.ofNat 32 i)) : (Bytes.readLE m a k : Word) = Bytes.readLE m' p k := by
  refine BitVec.eq_of_getLsbD_eq fun i _ => ?_
  rw [Bytes.getLsbD_readLE, Bytes.getLsbD_readLE]
  by_cases hi : i < 8 * k
  · rw [h (i / 8) (by omega)]
  · simp [hi]

variable (ha : Maps r₀ c type a p) (hk : 0 < k ∧ k ≤ 4) (hoff : a.toNat % 4096 + k ≤ 4096)

include ha hk hoff

/-- An access inside a page is one inside the RAM, when the pages are frames of the RAM. -/
theorem Maps.bounds (hframe : ∀ {a p : Word}, Maps r₀ c type a p → lo ≤ p.toNat ∧ p.toNat < hi) :
    lo ≤ p.toNat ∧ p.toNat + k ≤ hi := by
  have hlast : a.toNat % 4096 + (k - 1) < 4096 := by omega
  obtain ⟨hadd, hpage⟩ := ha.add hlast
  have hend := (hframe hadd).2
  rw [toNat_add_offset (hpage ▸ hlast)] at hend
  exact ⟨(hframe ha).1, by omega⟩

omit hk in
/-- A read finds the bytes of the program's memory. -/
theorem Virtual.readLE (h : Virtual r₀ c tlb r m) :
    (Bytes.readLE r p k : Word) = Bytes.readLE m a k :=
  readLE_eq_of_bytes fun i hi => (h.content (ha.add (by omega)).1).symm

omit ha in
/-- A write changes the bytes of the program's memory. -/
theorem Virtual.writeLE (hspace : AddressSpace r₀ c lo hi) (h : Virtual r₀ c tlb r m)
    (ha : Maps r₀ c .store a p) (v : Word) :
    Virtual r₀ c tlb (Bytes.writeLE r p v k) (Bytes.writeLE m a v k) := by
  have hk32 : k ≤ 2 ^ 32 := by omega
  have hmaps (i : ℕ) (hi : i < k) :
      Maps r₀ c .store (a + BitVec.ofNat 32 i) (p + BitVec.ofNat 32 i) :=
    (ha.add (by omega)).1
  have hadd (x y : Word) : x + BitVec.ofNat 32 (y - x).toNat = y := by
    rw [BitVec.ofNat_toNat, BitVec.setWidth_eq]
    exact add_sub_cancel x y
  refine ⟨fun {_ b q} hb x hx => ?_, fun {_ b q} hb => ?_, h.cached⟩
  · -- the tables are not writable
    have hfar (i : ℕ) (hi : i < 4) : k ≤ (x + BitVec.ofNat 32 i - p).toNat := by
      by_contra hlt
      have hq := hmaps _ (not_le.1 hlt)
      rw [hadd] at hq
      have hfour := hspace.apart hb hq x hx
      rw [add_sub_cancel_left, BitVec.toNat_ofNat] at hfour
      omega
    unfold pteAt
    rw [Bytes.readLE_writeLE_of_disjoint hk32 hfar]
    exact h.tables hb x hx
  · rw [Bytes.writeLE_apply hk32, Bytes.writeLE_apply hk32]
    by_cases hin : (b - a).toNat < k
    · have hq := hmaps _ hin
      rw [hadd] at hq
      have hsub : p + BitVec.ofNat 32 (b - a).toNat = q := hq.unique hb
      have hoff' : (q - p).toNat = (b - a).toNat := by
        rw [← hsub, add_sub_cancel_left, BitVec.ofNat_toNat, BitVec.setWidth_eq]
      rw [if_pos hin, if_pos (hoff' ▸ hin), hoff']
    · have hout : ¬ (q - p).toNat < k := by
        intro hlt
        have hq := hmaps _ hlt
        rw [hadd] at hq
        have hba := hspace.unaliased hq hb
        refine hin ?_
        rw [hba, add_sub_cancel_left, BitVec.toNat_ofNat]
        omega
      rw [if_neg hin, if_neg hout, h.content hb]

end Accesses

/-! ### The service -/

section Serves

variable {β : Type*} {bus : PhysBus β} {lo hi : ℕ} {View : β → Ram → Prop} {r₀ : Ram}
  {c : HartMode}

theorem CPUState.active_of_sv32 {s : CPUState} (hpriv : s.mode.priv < prvM)
    (hsv : s.mode.satp >>> satpModeShift ≠ satpModeBare) :
    s.mmuActiveFetch ∧ s.mmuActiveData ∧ s.effectiveDataPriv = s.priv := by
  have hpriv : s.priv < prvM := hpriv
  have hsatp : s.csr.satp >>> 31 ≠ 0 := hsv
  have hne : s.priv ≠ 3 := BitVec.ne_of_lt hpriv
  have heff : s.effectiveDataPriv = s.priv := by
    unfold CPUState.effectiveDataPriv
    rw [if_neg fun hand => hne hand.1]
  exact ⟨decide_eq_true ⟨hsatp, hpriv⟩, decide_eq_true ⟨hsatp, heff ▸ hpriv⟩, heff⟩

theorem AddressSpace.active (h : AddressSpace r₀ c lo hi) {s : CPUState} (hc : s.mode = c) :
    s.mmuActiveFetch ∧ s.mmuActiveData ∧ s.effectiveDataPriv = c.priv := by
  subst hc
  exact CPUState.active_of_sv32 h.priv h.sv32

theorem ignores_virtual {K : Set ℕ} (hK : SpaceApart K r₀ c) : Ignores K (Virtual r₀ c) := by
  intro tlb r r' m h hout
  refine ⟨fun hb x hx => ?_, fun hb => ?_, h.cached⟩
  · have hword : pteAt r' x = pteAt r x := by
      refine Bytes.readLE_congr fun i hi => hout _ fun hq => ?_
      have hfar := hK.table hb x hx _ hq
      rw [add_sub_cancel_left, BitVec.toNat_ofNat] at hfar
      omega
    rw [hword]
    exact h.tables hb x hx
  · rw [h.content hb, hout _ (hK.page hb)]

variable (hspace : AddressSpace r₀ c lo hi) (hr : RamAt bus lo hi View) {K : Set ℕ}
  (hK : SpaceApart K r₀ c) (f : Ram)

include hspace hr hK

theorem Keeping.translate {f : Ram} {r : Ram} {tlb : Tlb} {m : Isa.Mem}
    (h : Keeping K f (Virtual r₀ c) tlb r m) (pick : Tlb → ℕ) {b : β} (hv : View b r)
    {type : AccessType} {a p : Word} (ha : Maps r₀ c type a p) :
    ∃ tlb' b' r', VirtualSoC.translate bus.ptMem pick a type c.priv c.satp c.mstatus tlb b =
      (⟨p, false, 0⟩, tlb', b') ∧ View b' r' ∧ Keeping K f (Virtual r₀ c) tlb' r' m := by
  obtain ⟨hvirt, hkeep⟩ := h
  obtain ⟨tlb', b', r', ht, hv', hvirt', hmarks⟩ := hvirt.translate hspace hr pick hv ha
  refine ⟨tlb', b', r', ht, hv', hvirt', fun q hq => ?_⟩
  rw [hmarks.apart fun x hx => hK.table ha x hx q hq, hkeep q hq]

theorem AddressSpace.dataPaddr (pick : Tlb → ℕ) {s : CPUState} (hc : s.mode = c) {e : Env β}
    {m : Isa.Mem} (h : Sees View (Keeping K f (Virtual r₀ c)) e m) {type : AccessType} {a p : Word}
    (ha : Maps r₀ c type a p) :
    ∃ e' r, VirtualSoC.dataPaddr bus pick s a type e = (some p, e') ∧ View e'.bus r ∧
      Keeping K f (Virtual r₀ c) e'.tlb r m ∧ e'.memFault = e.memFault := by
  obtain ⟨-, hactive, hpriv⟩ := hspace.active hc
  obtain ⟨r, hv, hkept⟩ := h
  obtain ⟨tlb, b, r', ht, hv', hkept'⟩ := hkept.translate hspace hr hK pick hv ha
  refine ⟨{ e with tlb, bus := b }, r', ?_, hv', hkept', rfl⟩
  have hd : dataTranslate pick s a type e bus = (⟨p, false, 0⟩, tlb, b) := by
    subst hc
    rw [dataTranslate, hpriv]
    exact ht
  rw [dataPaddr_ok hactive (by rw [hd]; exact Bool.false_ne_true), hd]

/-- **A program in an address space has a memory of its own**, and leaves `K` alone. -/
theorem serves_virtual_keeping :
    Serves bus View c (virtualSpace r₀ c) (Keeping K f (Virtual r₀ c)) where
  load_of_store := by
    rintro a ⟨p, hp⟩
    exact ⟨p, hp.load⟩
  flush h := ⟨⟨h.1.tables, h.1.content, fun hfind => by cases hfind⟩, h.2⟩
  fetch := by
    rintro pick s e m hc ⟨r, hv, hkept⟩ heven ⟨⟨p, hp⟩, hoff⟩
    have hpage : s.pc.toNat % 4096 + 4 ≤ 4096 := by
      have hne : s.pc.toNat % 4096 ≠ 4094 := by
        intro h
        refine hoff (BitVec.eq_of_toNat_eq ?_)
        exact (toNat_and_ones s.pc (n := 12) (by decide)).trans h
      omega
    obtain ⟨tlb, b, r', ht, hv', hkept'⟩ := hkept.translate hspace hr hK pick hv hp
    obtain ⟨hlo, hhi⟩ := hp.bounds (k := 4) ⟨by decide, by decide⟩ hpage hspace.frame
    obtain ⟨hval, hview⟩ := hr.read (n := 4) hv' ⟨by decide, by decide⟩ hlo hhi
    refine ⟨{ e with tlb, bus := (bus.read p 4 b).2 }, ?_, r', hview, hkept'⟩
    subst hc
    have ht : VirtualSoC.translate bus.ptMem pick s.pc .fetch s.priv s.csr.satp s.csr.mstatus e.tlb
        e.bus = (⟨p, false, 0⟩, tlb, b) := ht
    unfold VirtualSoC.fetch
    rw [if_pos (hspace.active rfl).1, ht, ← readLE_four, ← hkept'.1.readLE hp hpage, ← hval]
    rfl
  read := by
    rintro pick s e m a k hc h hk ⟨p, hp⟩
    obtain ⟨hk, hpage⟩ := hk.inPage
    obtain ⟨e', r, hd, hv, hkept, hfault⟩ := hspace.dataPaddr hr hK f pick hc h hp
    obtain ⟨hlo, hhi⟩ := hp.bounds hk hpage hspace.frame
    obtain ⟨hval, hview⟩ := hr.read hv hk hlo hhi
    refine ⟨{ e' with bus := (bus.read p k e'.bus).2 }, ?_, ⟨r, hview, hkept⟩, hfault⟩
    rw [memRead, hd, ← hkept.1.readLE hp hpage, ← hval]
  write := by
    rintro pick s e m a k v hc h hk ⟨p, hp⟩
    obtain ⟨hk, hpage⟩ := hk.inPage
    obtain ⟨e', r, hd, hv, ⟨hvirt, hkeep⟩, hfault⟩ := hspace.dataPaddr hr hK f pick hc h hp
    obtain ⟨hlo, hhi⟩ := hp.bounds hk hpage hspace.frame
    rw [memWrite, hd]
    refine ⟨⟨_, hr.write hv hk hlo hhi v, hvirt.writeLE hk hpage hspace hp v, fun q hq => ?_⟩,
      hfault⟩
    rw [Bytes.writeLE_apply (by omega), if_neg, hkeep q hq]
    -- the bytes that are written are in a page
    intro hlt
    have hpage := (hp.add (k := (q - p).toNat) (by omega)).1
    rw [BitVec.ofNat_toNat, BitVec.setWidth_eq, add_sub_cancel] at hpage
    exact hK.page hpage hq

omit hK in
theorem serves_virtual : Serves bus View c (virtualSpace r₀ c) (Virtual r₀ c) := by
  have hserves := serves_virtual_keeping hspace hr (.empty r₀ c) fun _ => 0
  have heq : Keeping ∅ (fun _ => 0) (Virtual r₀ c) = Virtual r₀ c := by
    funext tlb r m
    exact propext ⟨fun h => h.1, fun h => ⟨h, fun _ hq => hq.elim⟩⟩
  rwa [heq] at hserves

end Serves

end VirtualSoC
