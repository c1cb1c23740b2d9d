import VirtualSoC.Cpu.IssSpec
import VirtualSoC.Platform.RamPort

/-!
# Instruction fetch, halfword by halfword

The ISS translates `pc` and reads four bytes there.  With the compressed extension an instruction
consists of one or two halfwords, each at its own virtual address: `fetchHalfwords` translates and
reads them one at a time.

The two agree exactly when the four bytes are in memory and the physical address of the second
halfword follows that of the first (`fetchesHalfwords_iff`).  A read that runs past the end of a
memory calls `SC_REPORT_ERROR`, which throws: then nothing is decoded.
-/

namespace VirtualSoC

/-! ### The bits that are decoded -/

/-- A mask of low bits looks at the first halfword. -/
theorem and_parcel (x : Word) (c : BitVec 16) :
    x &&& c.setWidth 32 = (x.setWidth 16 &&& c).setWidth 32 := by
  refine BitVec.eq_of_getLsbD_eq fun i hi => ?_
  by_cases h16 : i < 16
  · simp [h16, hi]
  · have hnone : c.getLsbD i = false := BitVec.getLsbD_of_ge _ _ (by omega)
    simp [h16, hnone]

theorem and_three_iff (x : Word) : x &&& 0x3 = 0x3 ↔ x.setWidth 16 &&& 0x3 = 0x3 := by
  exact (and_parcel x 0x3).symm ▸ Bits.setWidth_inj (y := 0x3) (by decide)

/-- The bits of an instruction word that `decode` takes. -/
def instrBits (instr : Word) : Word := if instr &&& 0x3 ≠ 0x3 then instr &&& 0xFFFF else instr

theorem decode32_raw (instr : Word) : (decode32 instr).raw = instr := by
  simp only [decode32, apply_ite DecodedInstr.raw, ite_self]

theorem decode_raw (instr : Word) : (decode instr).raw = instrBits instr := by
  unfold decode instrBits
  split
  · simp only [apply_ite DecodedInstr.raw, ite_self]
  · exact decode32_raw instr

theorem decode_instrBits (instr : Word) : decode (instrBits instr) = decode instr := by
  unfold instrBits
  split
  next h =>
    have hlow : (instr &&& 0xFFFF) &&& 0x3 = instr &&& 0x3 := Bits.and_and_of_subset rfl
    have hraw : (instr &&& 0xFFFF) &&& 0xFFFF = instr &&& 0xFFFF := Bits.and_and_of_subset rfl
    have hparcel : (instr &&& 0xFFFF).setWidth 16 = instr.setWidth 16 := by
      rw [BitVec.setWidth_and]
      exact BitVec.and_allOnes
    unfold decode
    rw [hlow, if_pos h, if_pos h, hparcel, hraw]
  next h => rfl

/-- Two words decode to the same instruction if they agree on these bits, and only then. -/
theorem decode_eq_iff (x y : Word) : decode x = decode y ↔ instrBits x = instrBits y := by
  constructor
  · intro h
    rw [← decode_raw, h, decode_raw]
  · intro h
    rw [← decode_instrBits, h, decode_instrBits]

theorem instrBits_parcel {x : Word} {h : BitVec 16} (hx : x.setWidth 16 = h) (h3 : h &&& 0x3 ≠ 0x3) :
    instrBits x = h.setWidth 32 := by
  have hlow : x &&& 0x3 ≠ 0x3 := fun h0 => h3 (hx ▸ (and_three_iff x).1 h0)
  rw [instrBits, if_pos hlow, ← hx]
  exact (and_parcel x 0xFFFF).trans (congrArg _ BitVec.and_allOnes)

theorem instrBits_word {x : Word} {h : BitVec 16} (hx : x.setWidth 16 = h) (h3 : h &&& 0x3 = 0x3) :
    instrBits x = x := by
  have hlow : x &&& 0x3 = 0x3 := (and_three_iff x).2 (hx.symm ▸ h3)
  rw [instrBits, if_neg (not_not.2 hlow)]

/-- The word made of two halfwords. -/
def ofHalfwords (h k : BitVec 16) : Word := h.setWidth 32 ||| k.setWidth 32 <<< 16

theorem getLsbD_ofHalfwords (h k : BitVec 16) (i : ℕ) :
    (ofHalfwords h k).getLsbD i = if i < 16 then h.getLsbD i else k.getLsbD (i - 16) := by
  simp only [ofHalfwords, BitVec.getLsbD_or, BitVec.getLsbD_setWidth, BitVec.getLsbD_shiftLeft]
  by_cases h16 : i < 16
  · simp [h16, show i < 32 by omega]
  · by_cases hi : i < 32
    · simp [h16, hi, BitVec.getLsbD_of_ge h i (by omega), show i - 16 < 32 by omega]
    · simp [h16, hi, BitVec.getLsbD_of_ge k (i - 16) (by omega)]

@[simp] theorem setWidth_ofHalfwords (h k : BitVec 16) : (ofHalfwords h k).setWidth 16 = h := by
  refine BitVec.eq_of_getLsbD_eq fun i hi => ?_
  rw [BitVec.getLsbD_setWidth, getLsbD_ofHalfwords, if_pos hi, decide_eq_true hi, Bool.true_and]

theorem ofHalfwords_inj {h k k' : BitVec 16} : ofHalfwords h k = ofHalfwords h k' ↔ k = k' := by
  constructor
  · intro he
    refine BitVec.eq_of_getLsbD_eq fun i hi => ?_
    have hbit := congrArg (BitVec.getLsbD · (i + 16)) he
    simpa only [getLsbD_ofHalfwords, if_neg (show ¬ i + 16 < 16 by omega),
      Nat.add_sub_cancel] using hbit
  · rintro rfl
    rfl

theorem readLE_word (m : Ram) (a : Word) :
    (Bytes.readLE m a 4 : Word) =
      ofHalfwords ((Bytes.readLE m a 2 : Word).setWidth 16)
        ((Bytes.readLE m (a + 2) 2 : Word).setWidth 16) := by
  refine BitVec.eq_of_getLsbD_eq fun i hi => ?_
  rw [getLsbD_ofHalfwords]
  split
  next h16 =>
    rw [BitVec.getLsbD_setWidth, Bytes.getLsbD_readLE, Bytes.getLsbD_readLE]
    simp [h16, hi]
  next h16 =>
    have hdiv : i / 8 = (i - 16) / 8 + 2 := by omega
    have hmod : (i - 16) % 8 = i % 8 := by omega
    have haddr : a + 2 + BitVec.ofNat 32 ((i - 16) / 8) = a + BitVec.ofNat 32 (i / 8) := by
      rw [hdiv, BitVec.ofNat_add, BitVec.add_assoc, BitVec.add_comm 2]
      rfl
    rw [BitVec.getLsbD_setWidth, Bytes.getLsbD_readLE, Bytes.getLsbD_readLE, haddr, hmod]
    simp [hi, show i - 16 < 16 by omega, show i - 16 < 32 by omega]

/-! ### Two addresses on one page -/

section

variable {vaddr : Word} (heven : vaddr &&& 1 = 0) (hlast : vaddr &&& 0xFFF ≠ 0xFFE)

include heven hlast

theorem toNat_mod_page_lt : vaddr.toNat % 4096 + 2 < 4096 := by
  have hpage : (vaddr &&& 0xFFF).toNat = vaddr.toNat % 4096 := by
    rw [BitVec.toNat_and]
    exact Nat.and_two_pow_sub_one_eq_mod vaddr.toNat 12
  have hbit : vaddr.toNat % 2 = 0 := by
    have h := congrArg BitVec.toNat heven
    rw [BitVec.toNat_and] at h
    exact (Nat.and_two_pow_sub_one_eq_mod vaddr.toNat 1).symm.trans h
  have hne : vaddr.toNat % 4096 ≠ 4094 := fun h => hlast (BitVec.eq_of_toNat_eq (hpage.trans h))
  omega

theorem toNat_add_two : (vaddr + 2).toNat = vaddr.toNat + 2 := by
  have hlt := toNat_mod_page_lt heven hlast
  rw [BitVec.toNat_add]
  change (vaddr.toNat + 2) % 2 ^ 32 = _
  omega

theorem page_add_two : (vaddr + 2) >>> pageShift = vaddr >>> pageShift := by
  have hlt := toNat_mod_page_lt heven hlast
  refine BitVec.eq_of_toNat_eq ?_
  rw [BitVec.toNat_ushiftRight, BitVec.toNat_ushiftRight, toNat_add_two heven hlast,
    Nat.shiftRight_eq_div_pow, Nat.shiftRight_eq_div_pow]
  change (vaddr.toNat + 2) / 4096 = vaddr.toNat / 4096
  omega

/-- The offset of the next address in its page, or superpage. -/
theorem or_offset_add_two {k : ℕ} (hk : k = 12 ∨ k = 22) {x : Word} (hx : 2 ^ k ∣ x.toNat) :
    x ||| ((vaddr + 2) &&& BitVec.ofNat 32 (2 ^ k - 1)) =
      (x ||| (vaddr &&& BitVec.ofNat 32 (2 ^ k - 1))) + 2 := by
  have hlt := toNat_mod_page_lt heven hlast
  have hmask (y : Word) : (y &&& BitVec.ofNat 32 (2 ^ k - 1)).toNat = y.toNat % 2 ^ k := by
    have hlt : 2 ^ k - 1 < 2 ^ 32 := by rcases hk with rfl | rfl <;> decide
    rw [BitVec.toNat_and, BitVec.toNat_ofNat, Nat.mod_eq_of_lt hlt, Nat.and_two_pow_sub_one_eq_mod]
  have hor (y : Word) : x ||| (y &&& BitVec.ofNat 32 (2 ^ k - 1)) =
      x + (y &&& BitVec.ofNat 32 (2 ^ k - 1)) := by
    have hlow := (Bits.and_low_eq_zero_iff x (by rcases hk with rfl | rfl <;> decide)).2 hx
    refine (BitVec.add_eq_or_of_and_eq_zero _ _ ?_).symm
    rw [BitVec.and_comm y, ← BitVec.and_assoc, hlow]
    exact BitVec.zero_and
  have hnext : (vaddr + 2) &&& BitVec.ofNat 32 (2 ^ k - 1) =
      (vaddr &&& BitVec.ofNat 32 (2 ^ k - 1)) + 2 := by
    refine BitVec.eq_of_toNat_eq ?_
    rw [BitVec.toNat_add, hmask, hmask, toNat_add_two heven hlast]
    change _ = (_ + 2) % 2 ^ 32
    rcases hk with rfl | rfl
    · omega
    · omega
  rw [hor, hor, hnext, BitVec.add_assoc]

/-- The next halfword of the page is next to it in memory. -/
theorem leafPaddr_add_two (ppn : Word) (isSuperpage : Bool) :
    leafPaddr ppn isSuperpage (vaddr + 2) = leafPaddr ppn isSuperpage vaddr + 2 := by
  have hshift (x : Word) : (x <<< pageShift).toNat = x.toNat * 4096 % 2 ^ 32 := by
    rw [BitVec.toNat_shiftLeft, Nat.shiftLeft_eq]
    rfl
  unfold leafPaddr
  cases isSuperpage with
  | true =>
    refine or_offset_add_two heven hlast (.inr rfl) ?_
    have hlow : (ppn &&& ~~~0x3FF) &&& BitVec.ofNat 32 (2 ^ 10 - 1) = 0 := by
      rw [BitVec.and_assoc]
      exact BitVec.and_zero
    have hdvd := (Bits.and_low_eq_zero_iff _ (by decide)).1 hlow
    rw [hshift]
    omega
  | false =>
    refine or_offset_add_two heven hlast (.inl rfl) ?_
    rw [hshift]
    omega

end

/-! ### Translating twice -/

/-- `e` answers an access of the kind to `vaddr`, and the answer is `r`. -/
structure TLBEntry.Answers (e : TLBEntry) (vaddr : Word) (type : AccessType) (priv : Priv)
    (mstatus : Word) (r : MMUResult) : Prop where
  allowed : checkPermissions e.pteFlags type priv mstatus
  eq : r = ⟨leafPaddr e.ppn e.isSuperpage vaddr, false, 0⟩

section

variable {β : Type*} (pm : PtMem β) (pick : Tlb → ℕ) (vaddr : Word) (type : AccessType)
  (priv : Priv) (satp mstatus : Word) (tlb : Tlb)

/-- What a translation that does not fault leaves in the TLB: an entry that gives its answer. -/
def Cached (x : MMUResult × Tlb × β) : Prop :=
  ¬ x.1.fault → ∃ e, x.2.1.lookup (vaddr >>> pageShift) = some e ∧
    e.Answers vaddr type priv mstatus x.1

variable {vaddr type priv mstatus}

theorem cached_pageFault (y : Tlb × β) :
    Cached vaddr type priv mstatus (pageFault type, y) := fun h => absurd rfl h

theorem cached_walkLeaf (b : β) (level : ℕ) (pteAddr pte : Word)
    (h : ¬ (pte &&& pteR = 0 ∧ pte &&& pteW ≠ 0)) :
    Cached vaddr type priv mstatus
      (walkLeaf pm pick vaddr type priv mstatus level pteAddr pte h tlb b) := by
  unfold walkLeaf
  dsimp only
  split
  · exact cached_pageFault _
  next hp =>
    split
    · exact cached_pageFault _
    · refine fun _ => ⟨_, AList.lookup_insert _, ?_, rfl⟩
      have hperm : ((pte ||| requiredBits type) &&& 0xFF) &&& permBits = pte &&& permBits :=
        Bits.or_and_and_of_disjoint (by cases type <;> decide) (by decide)
      rw [checkPermissions_congr hperm]
      simpa using hp

theorem cached_walkFrom (b : β) (level : ℕ) (a : Word) :
    Cached vaddr type priv mstatus
      (walkFrom pm pick vaddr type priv mstatus level a tlb b) := by
  rw [walkFrom.eq_def]
  dsimp only
  split
  · exact cached_pageFault _
  split
  · exact cached_pageFault _
  split
  · exact cached_walkLeaf pm pick tlb _ level _ _ _
  cases level with
  | zero => exact cached_pageFault _
  | succ level => exact cached_walkFrom _ level _

variable (hsv : satp >>> satpModeShift ≠ satpModeBare)

include hsv

theorem cached_translate (b : β) :
    Cached vaddr type priv mstatus
      (translate pm pick vaddr type priv satp mstatus tlb b) := by
  cases ht : tlb.lookup (vaddr >>> pageShift) with
  | some e =>
    rw [translate_hit pick vaddr type priv satp mstatus tlb pm b hsv ht]
    intro hf
    refine ⟨e, ht, ?_⟩
    dsimp only [TLBEntry.translate] at hf ⊢
    by_cases hp : checkPermissions e.pteFlags type priv mstatus
    · exact ⟨hp, if_pos hp⟩
    · rw [if_neg hp] at hf
      exact absurd rfl hf
  | none =>
    rw [translate_miss pick vaddr type priv satp mstatus tlb pm b hsv ht]
    exact cached_walkFrom pm pick tlb b 1 _

/-- The next halfword of the page is translated without a walk. -/
theorem translate_add_two (heven : vaddr &&& 1 = 0) (hlast : vaddr &&& 0xFFF ≠ 0xFFE)
    {r : MMUResult} {tlb' : Tlb} {b b' : β}
    (h : translate pm pick vaddr type priv satp mstatus tlb b = (r, tlb', b')) (hf : ¬ r.fault)
    (b₁ : β) :
    translate pm pick (vaddr + 2) type priv satp mstatus tlb' b₁ =
      (⟨r.paddr + 2, false, 0⟩, tlb', b₁) := by
  have hcached : Cached vaddr type priv mstatus _ := cached_translate pm pick satp tlb hsv b
  rw [h] at hcached
  obtain ⟨e, ht, hallowed, hr⟩ := hcached hf
  obtain rfl : r = _ := hr
  rw [translate_hit pick (vaddr + 2) type priv satp mstatus tlb' pm b₁ hsv
    ((page_add_two heven hlast).symm ▸ ht), TLBEntry.translate, if_pos hallowed,
    leafPaddr_add_two heven hlast]

end

/-! ### Fetching halfwords -/

/-- Memory at the addresses from `lo` up to `hi`, for reads inside it only; as for `RamAt`, the world
`b` is in order and `m` is the content of the memory when `View b m`. -/
structure ReadableAt {β : Type*} (bus : PhysBus β) (lo hi : ℕ) (View : β → Ram → Prop) : Prop where
  bound : hi ≤ 2 ^ 32
  read {b : β} {m : Ram} (h : View b m) {a : Word} {n : ℕ} (hn : 0 < n ∧ n ≤ 4)
    (hlo : lo ≤ a.toNat) (hhi : a.toNat + n ≤ hi) :
    (bus.read a n b).1 = Bytes.readLE m a n ∧ View (bus.read a n b).2 m

theorem RamAt.readableAt {β : Type*} {bus : PhysBus β} {lo hi : ℕ} {View : β → Ram → Prop}
    (h : RamAt bus lo hi View) (hhi : hi ≤ 2 ^ 32) : ReadableAt bus lo hi View :=
  ⟨hhi, h.read⟩

section

variable {β : Type*} (bus : PhysBus β) (pick : Tlb → ℕ) (s : CPUState) (e : Env β)

/-- The physical address of the instruction at `vaddr`, or the cause of the fetch page fault. -/
def fetchPaddr (vaddr : Word) (e : Env β) : Except Word Word × Env β :=
  if s.mmuActiveFetch then
    match translate bus.ptMem pick vaddr .fetch s.priv s.csr.satp s.csr.mstatus e.tlb e.bus with
    | (r, tlb, b) => (if r.fault then .error r.cause else .ok r.paddr, { e with tlb, bus := b })
  else (.ok vaddr, e)

/-- The halfword at the physical address `p`. -/
def halfword (p : Word) (b : β) : BitVec 16 := (bus.read p 2 b).1.setWidth 16

/-- The halfword at the virtual address `vaddr`, with the cause of a fetch page fault. -/
def fetchHalfword (vaddr : Word) (e : Env β) : Except Word (BitVec 16) × Env β :=
  match fetchPaddr bus pick s vaddr e with
  | (.error cause, e) => (.error cause, e)
  | (.ok p, e) => (.ok (halfword bus p e.bus), { e with bus := (bus.read p 2 e.bus).2 })

/-- The instruction at `pc`, halfword by halfword: the second is fetched when the first says that
there is one. -/
def fetchHalfwords (e : Env β) : Except Word Word × Env β :=
  match fetchHalfword bus pick s s.pc e with
  | (.error cause, e) => (.error cause, e)
  | (.ok h, e) =>
    if h &&& 0x3 ≠ 0x3 then (.ok (h.setWidth 32), e)
    else
      match fetchHalfword bus pick s (s.pc + 2) e with
      | (.error cause, e) => (.error cause, e)
      | (.ok k, e) => (.ok (ofHalfwords h k), e)

/-- What the ISS decodes, or the cause of its page fault; nothing when its read of four bytes runs
past `hi`, the end of the memory, where the report throws. -/
def fetchDecode (hi : ℕ) : Option (Except Word DecodedInstr) :=
  match (fetchPaddr bus pick s s.pc e).1 with
  | .ok p => if hi < p.toNat + 4 then none else some ((fetch bus pick s e).1.map decode)
  | .error _ => some ((fetch bus pick s e).1.map decode)

/-- What the ISS decodes is the instruction fetched halfword by halfword, and it raises the same
page faults. -/
def FetchesHalfwords (hi : ℕ) : Prop :=
  fetchDecode bus pick s e hi = some ((fetchHalfwords bus pick s e).1.map decode)

/-- The instruction at `pc` is in one piece, in a memory that ends at `hi`: the four bytes from its
physical address `p` are in the memory, and a second halfword on another page is the one after
`p`. -/
def InOnePiece (hi : ℕ) : Prop :=
  ∀ p e₁, fetchPaddr bus pick s s.pc e = (.ok p, e₁) →
    p.toNat + 4 ≤ hi ∧
      (halfword bus p e₁.bus &&& 0x3 = 0x3 → s.mmuActiveFetch → s.pc &&& 0xFFF = 0xFFE →
        (fetchHalfword bus pick s (s.pc + 2) { e₁ with bus := (bus.read p 2 e₁.bus).2 }).1 =
          .ok (halfword bus (p + 2) e₁.bus))

variable {bus pick s e}

/-- The ISS reads four bytes at the physical address of `pc`. -/
theorem fetch_eq :
    fetch bus pick s e =
      match fetchPaddr bus pick s s.pc e with
      | (.error cause, e) => (.error cause, e)
      | (.ok p, e) => (.ok (bus.read p 4 e.bus).1, { e with bus := (bus.read p 4 e.bus).2 }) := by
  unfold fetch fetchPaddr
  by_cases ha : s.mmuActiveFetch
  · rw [if_pos ha, if_pos ha]
    obtain ⟨r, tlb, b⟩ := translate bus.ptMem pick s.pc .fetch s.priv s.csr.satp s.csr.mstatus
      e.tlb e.bus
    by_cases hf : r.fault
    · simp only [if_pos hf]
    · simp only [if_neg hf]
  · rw [if_neg ha, if_neg ha]

theorem fetchHalfwords_eq {p : Word} {e₁ : Env β}
    (hp : fetchPaddr bus pick s s.pc e = (.ok p, e₁)) :
    (fetchHalfwords bus pick s e).1 =
      if halfword bus p e₁.bus &&& 0x3 ≠ 0x3 then .ok ((halfword bus p e₁.bus).setWidth 32)
      else
        (fetchHalfword bus pick s (s.pc + 2) { e₁ with bus := (bus.read p 2 e₁.bus).2 }).1.map
          (ofHalfwords (halfword bus p e₁.bus)) := by
  have h : fetchHalfword bus pick s s.pc e =
      (.ok (halfword bus p e₁.bus), { e₁ with bus := (bus.read p 2 e₁.bus).2 }) := by
    rw [fetchHalfword, hp]
  rw [fetchHalfwords, h]
  dsimp only
  split
  · rfl
  · obtain ⟨x, e₂⟩ := fetchHalfword bus pick s (s.pc + 2)
      { e₁ with bus := (bus.read p 2 e₁.bus).2 }
    cases x with
    | error cause => rfl
    | ok k => rfl

theorem fetchPaddr_add_two (heven : s.pc &&& 1 = 0)
    (hpage : s.mmuActiveFetch → s.pc &&& 0xFFF ≠ 0xFFE) {p : Word} {e₁ : Env β}
    (hp : fetchPaddr bus pick s s.pc e = (.ok p, e₁)) (b : β) :
    fetchPaddr bus pick s (s.pc + 2) { e₁ with bus := b } = (.ok (p + 2), { e₁ with bus := b }) := by
  unfold fetchPaddr at hp ⊢
  by_cases ha : s.mmuActiveFetch
  · rw [if_pos ha] at hp ⊢
    have hsv : s.csr.satp >>> satpModeShift ≠ satpModeBare := (of_decide_eq_true ha).1
    rcases h : translate bus.ptMem pick s.pc .fetch s.priv s.csr.satp s.csr.mstatus e.tlb e.bus with
      ⟨r, tlb, b'⟩
    rw [h] at hp
    by_cases hf : r.fault
    · simp only [if_pos hf] at hp
      cases hp
    · simp only [if_neg hf] at hp
      cases hp
      dsimp only
      rw [translate_add_two bus.ptMem pick s.csr.satp e.tlb hsv heven (hpage ha) h hf b]
      rfl
  · rw [if_neg ha] at hp ⊢
    cases hp
    rfl

variable {lo hi : ℕ} {View : β → Ram → Prop}

namespace ReadableAt

variable (hmem : ReadableAt bus lo hi View) {b : β} {m : Ram} (hb : View b m) {p : Word}
  (hlo : lo ≤ p.toNat)

include hmem hb hlo

theorem halfword_eq (hhi : p.toNat + 2 ≤ hi) :
    halfword bus p b = (Bytes.readLE m p 2 : Word).setWidth 16 ∧ View (bus.read p 2 b).2 m := by
  obtain ⟨hr, hv⟩ := hmem.read hb (show 0 < 2 ∧ 2 ≤ 4 by decide) hlo hhi
  exact ⟨congrArg _ hr, hv⟩

omit hb hlo in
theorem toNat_next (hhi : p.toNat + 4 ≤ hi) : (p + 2).toNat = p.toNat + 2 := by
  have hbound := hmem.bound
  rw [BitVec.toNat_add]
  change (p.toNat + 2) % 2 ^ 32 = _
  omega

theorem read_four (hhi : p.toNat + 4 ≤ hi) :
    (bus.read p 4 b).1 = ofHalfwords (halfword bus p b) (halfword bus (p + 2) b) := by
  have hnext := hmem.toNat_next hhi
  rw [(hmem.halfword_eq hb hlo (by omega)).1,
    (hmem.halfword_eq hb (p := p + 2) (by omega) (by omega)).1, ← readLE_word]
  exact (hmem.read hb (by decide) hlo hhi).1

end ReadableAt

/-- Decoding the same instruction, when there is one. -/
theorem map_decode_eq_iff {x : Word} {r : Except Word Word} :
    (Except.ok x).map decode = r.map decode ↔ ∃ y, r = .ok y ∧ instrBits x = instrBits y := by
  cases r with
  | error cause => simp [Except.map]
  | ok y => simp [Except.map, decode_eq_iff]

theorem not_fetchesHalfwords_atEnd {p : Word} {e₁ : Env β}
    (hp : fetchPaddr bus pick s s.pc e = (.ok p, e₁)) (hend : hi < p.toNat + 4) :
    ¬ FetchesHalfwords bus pick s e hi := by
  unfold FetchesHalfwords fetchDecode
  rw [hp]
  dsimp only
  rw [if_pos hend]
  exact fun h => by cases h

section Inside

variable {p x : Word} {e₁ : Env β} (hp : fetchPaddr bus pick s s.pc e = (.ok p, e₁))
  (hhi : p.toNat + 4 ≤ hi) (hx : (bus.read p 4 e₁.bus).1 = x)

include hp hhi hx

theorem fetchesHalfwords_inside : FetchesHalfwords bus pick s e hi ↔
    (Except.ok x).map decode = (fetchHalfwords bus pick s e).1.map decode := by
  have hfetch : (fetch bus pick s e).1 = .ok x := by
    rw [fetch_eq, hp]
    exact congrArg Except.ok hx
  unfold FetchesHalfwords fetchDecode
  rw [hp, hfetch]
  dsimp only
  rw [if_neg (not_lt.2 hhi), Option.some_inj]

/-- The ISS reads `x`, and the first halfword is a 16-bit instruction. -/
theorem fetchesHalfwords_parcel (h3 : halfword bus p e₁.bus &&& 0x3 ≠ 0x3) :
    FetchesHalfwords bus pick s e hi ↔ instrBits x = (halfword bus p e₁.bus).setWidth 32 := by
  rw [fetchesHalfwords_inside hp hhi hx, fetchHalfwords_eq hp, if_pos h3, map_decode_eq_iff]
  have hbits := instrBits_parcel (BitVec.setWidth_setWidth_of_le (halfword bus p e₁.bus)
    (show 16 ≤ 32 by decide)) (by rwa [BitVec.setWidth_eq])
  rw [BitVec.setWidth_eq] at hbits
  constructor
  · rintro ⟨y, hy, heq⟩
    cases hy
    rw [heq, hbits]
  · intro h
    exact ⟨_, rfl, h.trans hbits.symm⟩

/-- The ISS reads `x`, and the first halfword says that there is a second. -/
theorem fetchesHalfwords_word (h3 : halfword bus p e₁.bus &&& 0x3 = 0x3) :
    FetchesHalfwords bus pick s e hi ↔
      ∃ k, (fetchHalfword bus pick s (s.pc + 2) { e₁ with bus := (bus.read p 2 e₁.bus).2 }).1 =
        .ok k ∧ instrBits x = ofHalfwords (halfword bus p e₁.bus) k := by
  rw [fetchesHalfwords_inside hp hhi hx, fetchHalfwords_eq hp, if_neg (not_not.2 h3),
    map_decode_eq_iff]
  generalize (fetchHalfword bus pick s (s.pc + 2) { e₁ with bus := (bus.read p 2 e₁.bus).2 }).1 = r
  have hbits (k : BitVec 16) : instrBits (ofHalfwords (halfword bus p e₁.bus) k) =
      ofHalfwords (halfword bus p e₁.bus) k := instrBits_word (setWidth_ofHalfwords _ k) h3
  constructor
  · rintro ⟨y, hy, heq⟩
    cases r with
    | error cause => cases hy
    | ok k =>
      cases hy
      exact ⟨k, rfl, heq.trans (hbits k)⟩
  · rintro ⟨k, rfl, heq⟩
    exact ⟨_, rfl, heq.trans (hbits k).symm⟩

end Inside

/-- **Fetch respects translation at every halfword exactly for the instructions in one piece.** -/
theorem fetchesHalfwords_iff (hmem : ReadableAt bus lo hi View) (heven : s.pc &&& 1 = 0)
    (hin : ∀ p e₁, fetchPaddr bus pick s s.pc e = (.ok p, e₁) →
      lo ≤ p.toNat ∧ p.toNat + 2 ≤ hi ∧ ∃ m, View e₁.bus m) :
    FetchesHalfwords bus pick s e hi ↔ InOnePiece bus pick s e hi := by
  rcases hp : fetchPaddr bus pick s s.pc e with ⟨cause | p, e₁⟩
  · -- the page fault of `pc` itself
    refine iff_of_true ?_ fun p e₁' h => by cases hp.symm.trans h
    rw [FetchesHalfwords, fetchDecode, fetch_eq, fetchHalfwords, fetchHalfword, hp]
  obtain ⟨hlo, hhi, m, hb⟩ := hin p e₁ hp
  have hpiece : InOnePiece bus pick s e hi ↔
      p.toNat + 4 ≤ hi ∧
        (halfword bus p e₁.bus &&& 0x3 = 0x3 → s.mmuActiveFetch → s.pc &&& 0xFFF = 0xFFE →
          (fetchHalfword bus pick s (s.pc + 2) { e₁ with bus := (bus.read p 2 e₁.bus).2 }).1 =
            .ok (halfword bus (p + 2) e₁.bus)) := by
    refine ⟨fun h => h p e₁ hp, fun h p' e' hp' => ?_⟩
    cases hp.symm.trans hp'
    exact h
  rw [hpiece]
  by_cases hend : hi < p.toNat + 4
  · exact iff_of_false (not_fetchesHalfwords_atEnd hp hend) fun h => absurd h.1 (not_le.2 hend)
  have hend := not_lt.1 hend
  rw [and_iff_right hend]
  have hx := hmem.read_four hb hlo hend
  by_cases h3 : halfword bus p e₁.bus &&& 0x3 = 0x3
  · rw [fetchesHalfwords_word hp hend hx h3, instrBits_word (setWidth_ofHalfwords _ _) h3]
    simp only [ofHalfwords_inj]
    by_cases hstraddle : s.mmuActiveFetch ∧ s.pc &&& 0xFFF = 0xFFE
    · refine ⟨?_, fun h => ⟨_, h h3 hstraddle.1 hstraddle.2, rfl⟩⟩
      rintro ⟨k, hk, rfl⟩ - - -
      exact hk
    · refine iff_of_true ⟨_, ?_, rfl⟩ fun _ ha hl => absurd ⟨ha, hl⟩ hstraddle
      -- the second halfword is read in the world that the first read leaves
      have hb' := (hmem.halfword_eq hb hlo hhi).2
      have hnext := hmem.toNat_next hend
      rw [fetchHalfword, fetchPaddr_add_two heven (fun ha hl => hstraddle ⟨ha, hl⟩) hp]
      dsimp only
      rw [(hmem.halfword_eq hb' (p := p + 2) (by omega) (by omega)).1,
        (hmem.halfword_eq hb (p := p + 2) (by omega) (by omega)).1]
  · rw [fetchesHalfwords_parcel hp hend hx h3, instrBits_parcel (setWidth_ofHalfwords _ _) h3]
    exact iff_of_true rfl fun h => absurd h h3

end

/-! On the platform, without translation. -/

theorem fetchPaddr_bare {β : Type*} {bus : PhysBus β} {pick : Tlb → ℕ} {s : CPUState} {e : Env β}
    (ha : ¬ s.mmuActiveFetch) (vaddr : Word) : fetchPaddr bus pick s vaddr e = (.ok vaddr, e) :=
  if_neg ha

/-- The first instruction of a RAM of zeros. -/
theorem fetchesHalfwords_iff_zero : ∃ b, PlatformView Unit b (fun _ => 0) ∧
    (FetchesHalfwords (socBus platformBus) (fun _ => 0) { pc := 0x80000000 } { bus := b }
        0x88000000 ↔
      InOnePiece (socBus platformBus) (fun _ => 0) { pc := 0x80000000 } { bus := b }
        0x88000000) := by
  obtain ⟨b, hb⟩ := exists_platformView_zero
  refine ⟨b, hb, fetchesHalfwords_iff (platform_ramAt.readableAt (by decide)) (by decide) ?_⟩
  intro p e₁ hp
  rw [fetchPaddr_bare (by decide)] at hp
  cases hp
  exact ⟨by decide, by decide, _, hb⟩

/-- C.NOP in the last two bytes of the RAM is not executed. -/
theorem not_fetchesHalfwords : ∃ b m, PlatformView Unit b m ∧
    Bytes.readLE m (0x87FFFFFE : Word) 2 = (1 : Word) ∧
    ¬ FetchesHalfwords (socBus platformBus) (fun _ => 0) { pc := 0x87FFFFFE } { bus := b }
      0x88000000 := by
  obtain ⟨b, hb⟩ := exists_platformView_zero
  refine ⟨_, _, platform_ramAt.write hb (a := 0x87FFFFFE) (n := 2) (by decide) (by decide)
    (by decide) 1, by decide, ?_⟩
  exact not_fetchesHalfwords_atEnd (fetchPaddr_bare (by decide) _) (by decide)

/-! Under translation, an instruction whose second halfword is on a page that is not mapped: the
ISS executes what follows the first page in memory. -/

/-- S-mode at the last halfword of a page. -/
def straddling : CPUState := { pc := 0x003FFFFE, priv := prvS, csr := { satp := 0x80000001 } }

/-- A page table with one page, and an instruction that begins in its last halfword. -/
def straddlingRam : Ram := fun a =>
  if a = 0x1000 then 0xCF else if a = 0x003FFFFE then 0x13 else 0

example : (fetch plainRam (fun _ => 0) straddling { bus := straddlingRam }).1 = .ok 0x13 ∧
    (fetchHalfwords plainRam (fun _ => 0) straddling { bus := straddlingRam }).1 =
      .error causeFetchPageFault :=
  ⟨rfl, rfl⟩

end VirtualSoC
