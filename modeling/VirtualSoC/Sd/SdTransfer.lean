import VirtualSoC.Bus.RamRange
import VirtualSoC.Lib.PartialRun
import VirtualSoC.Sd.SdCardSpec
import VirtualSoC.Sd.SdCtrl

/-!
# SD transfers

`sd_transfer` : a transfer moves the blocks before the first one that the card or the bus refuses,
and its status tells whether there was one.  `SDCtrl.readBlock_iff` says which blocks the card
refuses.
-/

namespace VirtualSoC

/-! ### The card -/

namespace SDCardModel

variable {card : SDCardModel} {block : Word} {buf : SdBlock}

/-- A call that succeeds returns the block, and the next call may succeed, too. -/
theorem exists_of_readBlock (h : (card.readBlock block buf).1 = true) :
    ∃ image, card.Holds image false ∧ InImage image block ∧
      (card.readBlock block buf).2.2.Holds image false ∧
      ∀ i < 512, (card.readBlock block buf).2.1[i]? = image[512 * block.toNat + i]? := by
  cases hfile : card.file.file with
  | none =>
    have hclosed : card.file.isOpen = false := by simp [IFStream.isOpen, hfile]
    rw [readBlock, hclosed] at h
    cases h
  | some image =>
    cases hfail : card.file.failbit with
    | true =>
      obtain ⟨hout, -⟩ := readBlock_failed block buf ⟨hfile, hfail⟩
      have hrefused : (card.readBlock block buf).1 = false := congrArg Prod.fst hout
      exact Bool.noConfusion (h.symm.trans hrefused)
    | false =>
      have hcard : card.Holds image false := ⟨hfile, hfail⟩
      obtain ⟨⟨hiff, hbytes⟩, hnext⟩ := readBlock_good block buf hcard
      have hin : InImage image block := hiff.1 h
      rw [decide_eq_true hin] at hnext
      exact ⟨image, hcard, hin, hnext, hbytes hin⟩

theorem readBlock_iff : (card.readBlock block buf).1 = true ↔
    ∃ image, card.Holds image false ∧ InImage image block := by
  constructor
  · intro h
    obtain ⟨image, hcard, hin, -⟩ := exists_of_readBlock h
    exact ⟨image, hcard, hin⟩
  · rintro ⟨image, hcard, hin⟩
    obtain ⟨⟨hiff, -⟩, -⟩ := readBlock_good block buf hcard
    exact hiff.2 hin

end SDCardModel

namespace SDCtrl

variable (c : SDCtrl)

/-- The image of the card. -/
def image : Option (Array Byte) := c.card.bind (·.file.file)

/-- The bytes of the requested blocks, one block after the other. -/
def requested (p : ℕ) : Option Byte :=
  c.image.bind fun image => image[512 * (c.arg + BitVec.ofNat 32 (p / 512)).toNat + p % 512]?

variable {c} {block : Word} {buf : SdBlock}

/-- The blocks that the card does not refuse: a card is inserted, none of its calls has failed
yet, and the block is in its image. -/
theorem readBlock_iff : (c.readBlock block buf).1 = true ↔
    ∃ card ∈ c.card, ∃ image, card.Holds image false ∧ InImage image block := by
  cases hcard : c.card with
  | none => simp [readBlock, hcard]
  | some card =>
    rw [readBlock, hcard]
    simpa using SDCardModel.readBlock_iff

variable (c block buf) in
theorem readBlock_ctrl :
    (c.readBlock block buf).2.2 = { c with card := (c.readBlock block buf).2.2.card } := by
  cases hcard : c.card with
  | none =>
    simp only [readBlock, hcard]
    rw [← hcard]
  | some card => simp only [readBlock, hcard]

theorem exists_of_readBlock (h : (c.readBlock block buf).1 = true) :
    (c.readBlock block buf).2.2.image = c.image ∧
      ∀ i < 512, (c.readBlock block buf).2.1[i]? =
        c.image.bind fun image => image[512 * block.toNat + i]? := by
  cases hcard : c.card with
  | none =>
    rw [readBlock, hcard] at h
    cases h
  | some card =>
    rw [readBlock, hcard] at h ⊢
    obtain ⟨image, hold, -, hnext, hbytes⟩ := SDCardModel.exists_of_readBlock h
    have himage : c.image = some image := by rw [SDCtrl.image, hcard, Option.bind_some, hold.file]
    rw [himage]
    exact ⟨hnext.file, hbytes⟩

end SDCtrl

/-! ### Rounds of the loop -/

namespace SdOnBus

variable {δ : Type*} (bus : TlmBus)

/-- The card refuses the next block, or the bus refuses the write of it. -/
def Refused [TlmDevice δ] (s : SdOnBus δ) (buf : SdBlock) : Prop :=
  ∃ i blocks blockAddr dest, s.thread = .looping i blocks blockAddr dest true ∧ i < blocks ∧
    ((s.ctrl.readBlock (blockAddr + i) buf).1 = false ∨
      (s.ctrl.readBlock (blockAddr + i) buf).1 = true ∧
        ∃ answer targets, bus.bTransport s.targets
          (payload dest (s.ctrl.readBlock (blockAddr + i) buf).2.1) = some (answer, targets) ∧
            answer.response ≠ .ok)

/-- A start is pending and the thread waits for it. -/
structure Starting (s : SdOnBus δ) : Prop where
  thread : s.thread = .waiting
  startEvent : s.ctrl.startEvent = true

/-- `k` is the number of the first block that the card or the bus refuses, or the number of blocks
if none is refused.  The step with the number 0 is the start. -/
structure FirstRefused [TlmDevice δ] (s : SdOnBus δ) (bufs : List SdBlock) (k : ℕ) : Prop where
  le : k ≤ s.ctrl.blocks.toNat
  served : ∀ i < k, ¬ PartialRun.At (resume bus) (Refused bus) s bufs (i + 1)
  refused : k < s.ctrl.blocks.toNat → PartialRun.At (resume bus) (Refused bus) s bufs (k + 1)

/-- The transfer that starts in `s` has ended in `s'` with `k` blocks in the RAM: nothing else has
changed in a memory, the status tells whether these are all blocks, and `on_irq` has been called
once. -/
structure Ended (s : SdOnBus δ) (r : MappedRange) (k : ℕ) (s' : SdOnBus δ) : Prop where
  thread : s'.thread = .waiting
  status_eq : s'.ctrl.status = if k = s.ctrl.blocks.toNat then SDCtrl.statusDone
    else SDCtrl.statusDone ||| SDCtrl.statusError
  irqCalls : s'.ctrl.irqCalls = s.ctrl.irqCalls ++ [true]
  delivered : RamFilled r s.ctrl.dataAddr (512 * k) s.ctrl.requested s.targets s'.targets

/-- `k` blocks of the transfer that starts in `s₀` have been delivered. -/
structure Progress (s₀ : SdOnBus δ) (r : MappedRange) (k : ℕ) (s : SdOnBus δ) : Prop where
  thread : s.thread = .looping (BitVec.ofNat 32 k) s₀.ctrl.blocks s₀.ctrl.arg
    (s₀.ctrl.dataAddr + BitVec.ofNat 32 (512 * k)) true
  irqCalls : s.ctrl.irqCalls = s₀.ctrl.irqCalls
  startEvent : s.ctrl.startEvent = false
  image : s.ctrl.image = s₀.ctrl.image
  delivered : RamFilled r s₀.ctrl.dataAddr (512 * k) s₀.ctrl.requested s₀.targets s.targets
  ramSize : ∀ j, (s.targets j).ramSize = (s₀.targets j).ramSize

variable {bus} {s s₀ : SdOnBus δ} {r : MappedRange} {k : ℕ} {buf : SdBlock}

/-- The state in which the thread has left the loop. -/
theorem Progress.ended (h : Progress s₀ r k s) {ok : Bool}
    (hok : ok = decide (k = s₀.ctrl.blocks.toNat)) (s' : SdOnBus δ)
    (hirq : s'.ctrl.irqCalls = s.ctrl.irqCalls)
    (hsame : ∀ j, (s'.targets j).byte? = (s.targets j).byte?) :
    Ended s₀ r k (s'.finish ok) where
  thread := rfl
  status_eq := by
    rw [hok]
    simp only [finish, decide_eq_true_eq]
  irqCalls := by rw [finish, hirq, h.irqCalls]
  delivered := h.delivered.unchanged hsame

variable [TlmDevice δ]

/-- A thread that waits with no start pending stays where it is. -/
theorem resume_idle (hthread : s.thread = .waiting) (hev : s.ctrl.startEvent = false)
    (buf : SdBlock) : s.resume bus buf = some s := by
  rw [resume, hthread]
  dsimp only
  rw [hev]
  rfl

theorem resume_end {i blocks blockAddr dest : Word} {ok : Bool}
    (hthread : s.thread = .looping i blocks blockAddr dest ok) (h : ¬ (i < blocks ∧ ok = true))
    (buf : SdBlock) : s.resume bus buf = some (s.finish ok) := by
  rw [resume, hthread]
  dsimp only
  rw [if_neg h]

section Round

variable {i blocks blockAddr dest : Word} (hthread : s.thread = .looping i blocks blockAddr dest true)
  (hi : i < blocks)

include hthread hi

variable (bus) in
theorem resume_cardRefused (hread : (s.ctrl.readBlock (blockAddr + i) buf).1 = false) :
    s.resume bus buf =
      some ({ s with ctrl := (s.ctrl.readBlock (blockAddr + i) buf).2.2 }.finish false) := by
  rw [resume, hthread]
  dsimp only
  rw [if_pos ⟨hi, rfl⟩, if_neg (Bool.eq_false_iff.1 hread)]

theorem resume_read (hread : (s.ctrl.readBlock (blockAddr + i) buf).1 = true)
    {answer : Payload sdBlockSize} {targets : ℕ → Target δ}
    (htrans : bus.bTransport s.targets
      (payload dest (s.ctrl.readBlock (blockAddr + i) buf).2.1) = some (answer, targets)) :
    s.resume bus buf = some
      { ctrl := (s.ctrl.readBlock (blockAddr + i) buf).2.2
        thread := .looping (i + 1) blocks blockAddr (dest + 512) (answer.response = .ok)
        targets } := by
  rw [resume, hthread]
  dsimp only
  rw [if_pos ⟨hi, rfl⟩, if_pos hread, htrans]
  rfl

end Round

variable (bus) in
theorem Starting.progress (hs : s.Starting) (r : MappedRange) (buf : SdBlock) :
    ∃ s', s.resume bus buf = some s' ∧ Progress s r 0 s' := by
  have hstart : s.resume bus buf = some { s with
      ctrl := { s.ctrl with startEvent := false, status := SDCtrl.statusBusy }
      thread := .looping 0 s.ctrl.blocks s.ctrl.arg s.ctrl.dataAddr true } := by
    rw [resume, hs.thread]
    dsimp only
    rw [if_pos hs.startEvent]
  refine ⟨_, hstart, ?_, rfl, rfl, rfl, .nothing .., fun _ => rfl⟩
  dsimp only
  rw [Nat.mul_zero, BitVec.add_zero]
  rfl

omit [TlmDevice δ] in
theorem index_lt {blocks : Word} (hk : k < blocks.toNat) : BitVec.ofNat 32 k < blocks := by
  have hlt := blocks.isLt
  rwa [BitVec.lt_def, BitVec.toNat_ofNat, Nat.mod_eq_of_lt (by omega)]

section Round

variable (h : Progress s₀ r k s)
  (hin : InRam bus s₀.targets r s₀.ctrl.dataAddr (512 * (k + 1)))

include h hin

theorem Progress.write (block : SdBlock) :
    ∃ targets, bus.bTransport s.targets
        (payload (s₀.ctrl.dataAddr + BitVec.ofNat 32 (512 * k)) block) =
          some ({ payload (s₀.ctrl.dataAddr + BitVec.ofNat 32 (512 * k)) block with
            response := .ok }, targets) ∧
      RamFilled r (s₀.ctrl.dataAddr + BitVec.ofNat 32 (512 * k)) 512 (block[·]?) s.targets targets ∧
      ∀ j, (targets j).ramSize = (s.targets j).ramSize := by
  have hblock := (hin.part (Nat.le_of_eq (Nat.mul_succ 512 k).symm)).congr (h.ramSize r.targetIdx)
  exact hblock.write (by decide) (payload _ block) rfl rfl (Nat.le_refl _) rfl

variable (hk : k < s₀.ctrl.blocks.toNat)

include hk

theorem Progress.refused_iff : Refused bus s buf ↔
    (s.ctrl.readBlock (s₀.ctrl.arg + BitVec.ofNat 32 k) buf).1 = false := by
  refine ⟨?_, fun hread => ⟨_, _, _, _, h.thread, index_lt hk, .inl hread⟩⟩
  rintro ⟨i, blocks, blockAddr, dest, hthread, -, hread | ⟨-, answer, targets, htrans, hresp⟩⟩
  · cases h.thread.symm.trans hthread
    exact hread
  · cases h.thread.symm.trans hthread
    obtain ⟨targets', hwrite, -⟩ := h.write hin
      (s.ctrl.readBlock (s₀.ctrl.arg + BitVec.ofNat 32 k) buf).2.1
    cases hwrite.symm.trans htrans
    exact absurd rfl hresp

/-- A round in which nothing is refused delivers the next block. -/
theorem Progress.round (hno : ¬ Refused bus s buf) :
    ∃ s', s.resume bus buf = some s' ∧ Progress s₀ r (k + 1) s' := by
  have hread : (s.ctrl.readBlock (s₀.ctrl.arg + BitVec.ofNat 32 k) buf).1 = true := by
    rwa [h.refused_iff hin hk, Bool.not_eq_false] at hno
  obtain ⟨himage, hbytes⟩ := SDCtrl.exists_of_readBlock hread
  obtain ⟨targets, htrans, hfilled, hsize⟩ := h.write hin
    (s.ctrl.readBlock (s₀.ctrl.arg + BitVec.ofNat 32 k) buf).2.1
  refine ⟨_, resume_read h.thread (index_lt hk) hread htrans, ?_, ?_, ?_, himage.trans h.image, ?_,
    fun j => (hsize j).trans (h.ramSize j)⟩
  · dsimp only
    rw [BitVec.ofNat_add, Nat.mul_succ, BitVec.ofNat_add, ← BitVec.add_assoc]
    rfl
  · rw [← h.irqCalls, SDCtrl.readBlock_ctrl]
  · rw [← h.startEvent, SDCtrl.readBlock_ctrl]
  · refine h.delivered.append (hin.offset_add (by omega)) hfilled fun i hi => ?_
    have hdiv : (512 * k + i) / 512 = k := by omega
    have hmod : (512 * k + i) % 512 = i := by omega
    rw [SDCtrl.requested, hdiv, hmod, ← h.image]
    exact hbytes i hi

end Round

/-- A refusal ends the transfer after one more round at most. -/
theorem Progress.refused (h : Progress s₀ r k s) (hk : k < s₀.ctrl.blocks.toNat)
    (href : Refused bus s buf) :
    ∃ s', Ended s₀ r k s' ∧ ∀ bufs, 0 < bufs.length →
      PartialRun.run (resume bus) s (buf :: bufs) = some s' := by
  have hok : false = decide (k = s₀.ctrl.blocks.toNat) :=
    (decide_eq_false (Nat.ne_of_lt hk)).symm
  obtain ⟨i, blocks, blockAddr, dest, hthread, hi, hcard⟩ := href
  have hctrl := s.ctrl.readBlock_ctrl (blockAddr + i) buf
  have hirq := congrArg SDCtrl.irqCalls hctrl
  have hev := (congrArg SDCtrl.startEvent hctrl).trans h.startEvent
  rcases hcard with hread | ⟨hread, answer, targets, htrans, hresp⟩
  · have hround := resume_cardRefused bus hthread hi hread
    refine ⟨_, h.ended hok { s with ctrl := _ } hirq fun _ => rfl, fun bufs _ => ?_⟩
    rw [PartialRun.run_cons hround]
    exact PartialRun.run_idle (resume_idle rfl hev) bufs
  · have hsame := TlmBus.byte?_of_bTransport htrans (.inr hresp)
    have hround := resume_read hthread hi hread htrans
    rw [decide_eq_false hresp] at hround
    refine ⟨_, h.ended hok
      ⟨_, .looping (i + 1) blocks blockAddr (dest + 512) false, targets⟩ hirq hsame,
      fun bufs hlen => ?_⟩
    obtain ⟨next, bufs, rfl⟩ := List.exists_cons_of_length_pos hlen
    have hout : ¬ (i + 1 < blocks ∧ false = true) := fun h => nomatch h.2
    rw [PartialRun.run_cons hround, PartialRun.run_cons (resume_end rfl hout next)]
    exact PartialRun.run_idle (resume_idle rfl hev) bufs

/-! ### Runs -/

/-- After the start and `k` rounds in which nothing is refused. -/
theorem Starting.exists_run (hs : s.Starting) (hk : k ≤ s.ctrl.blocks.toNat)
    (hin : InRam bus s.targets r s.ctrl.dataAddr (512 * k)) {bufs : List SdBlock}
    (hlen : bufs.length = k + 1)
    (hno : ∀ i < k, ¬ PartialRun.At (resume bus) (Refused bus) s bufs (i + 1)) :
    ∃ s', PartialRun.run (resume bus) s bufs = some s' ∧ Progress s r k s' := by
  obtain ⟨buf, bufs, rfl⟩ := List.exists_cons_of_length_eq_add_one hlen
  rw [List.length_cons, Nat.add_right_cancel_iff] at hlen
  obtain ⟨s₁, hstart, h₁⟩ := hs.progress bus r buf
  have hstep : ∀ j s' buf, j < k → Progress s r j s' → ¬ Refused bus s' buf →
      ∃ s'', s'.resume bus buf = some s'' ∧ Progress s r (j + 1) s'' := fun j s' buf hj hp href =>
    hp.round (hin.mono (Nat.mul_le_mul_left 512 hj)) (by omega) href
  obtain ⟨s', hrun, hp⟩ := PartialRun.exists_run hstep h₁ bufs (by omega)
    fun j hj hat => hno j (by omega) ⟨s₁, hstart, hat⟩
  rw [Nat.zero_add, hlen] at hp
  exact ⟨s', by rw [PartialRun.run_cons hstart, hrun], hp⟩

/-- **An SD transfer delivers a prefix of the requested blocks and says so.**  The blocks before the
first refused one are in the RAM, in order; nothing else has changed in a memory, the status is
done without error exactly if these are all blocks, and `on_irq` has been called once. -/
theorem sd_transfer (bus : TlmBus) (s : SdOnBus δ) (hs : s.Starting) (r : MappedRange)
    (bufs : List SdBlock) (hlen : s.ctrl.blocks.toNat + 2 ≤ bufs.length) (k : ℕ)
    (hk : s.FirstRefused bus bufs k) (hin : InRam bus s.targets r s.ctrl.dataAddr (512 * k)) :
    ∃ s', PartialRun.run (resume bus) s bufs = some s' ∧ Ended s r k s' := by
  rcases Nat.lt_or_eq_of_le hk.le with hlt | heq
  · obtain ⟨before, buf, after, s', rfl, hbefore, hrun, href⟩ := (hk.refused hlt).exists_split
    obtain ⟨s'', hrun', hp⟩ := hs.exists_run hk.le hin hbefore
      fun i hi hat => hk.served i hi (hat.append _)
    obtain rfl : s'' = s' := Option.some.inj (hrun'.symm.trans hrun)
    obtain ⟨s', hended, hrest⟩ := hp.refused hlt href
    rw [List.length_append, List.length_cons, hbefore] at hlen
    refine ⟨s', ?_, hended⟩
    rw [PartialRun.run_append, hrun, Option.bind_some, hrest after (by omega)]
  · obtain ⟨before, buf, after, rfl, hbefore⟩ :=
      PartialRun.exists_split (show k + 1 < bufs.length by omega)
    obtain ⟨s', hrun, hp⟩ := hs.exists_run hk.le hin hbefore
      fun i hi hat => hk.served i hi (hat.append _)
    have hout : ¬ (BitVec.ofNat 32 k < s.ctrl.blocks ∧ true = true) := by
      rintro ⟨hi, -⟩
      rw [BitVec.lt_def, heq, BitVec.ofNat_toNat, BitVec.setWidth_eq] at hi
      exact Nat.lt_irrefl _ hi
    refine ⟨_, ?_, hp.ended (decide_eq_true heq).symm s' rfl fun _ => rfl⟩
    rw [PartialRun.run_append, hrun, Option.bind_some,
      PartialRun.run_cons (resume_end hp.thread hout buf)]
    exact PartialRun.run_idle (resume_idle (s := s'.finish true) rfl hp.startEvent) after

/-! A card with one block, which is delivered to a RAM of one page; a second one is refused. -/

/-- Two blocks are to be read. -/
def twoBlocks : SdOnBus PEmpty.{1} where
  ctrl :=
    { cmd := SDCtrl.cmd18
      dataAddr := 0x80000000
      burstLen := 2
      startEvent := true
      card := some (.opened (.replicate 512 0x55)) }
  targets _ := .memory (.new 0x1000)

theorem sd_transfer_twoBlocks : ∃ s', PartialRun.run (resume pageMap.bus) twoBlocks
    (.replicate 4 (.replicate 512 0xAA)) = some s' ∧
      Ended twoBlocks ⟨0x80000000, 0x1000, 0⟩ 1 s' := by
  have hs : twoBlocks.Starting := ⟨rfl, rfl⟩
  have hram : InRam pageMap.bus twoBlocks.targets ⟨0x80000000, 0x1000, 0⟩
      twoBlocks.ctrl.dataAddr (512 * 2) :=
    mapped_pageMap.inRam (by decide) (k := 0) rfl rfl (by decide) (by decide)
  obtain ⟨s₁, h₁, hp₁⟩ := hs.progress pageMap.bus ⟨0x80000000, 0x1000, 0⟩ (.replicate 512 0xAA)
  have hcard : s₁.ctrl.card = twoBlocks.ctrl.card :=
    congrArg (·.ctrl.card) (Option.some.inj h₁).symm
  have hserved : ¬ Refused pageMap.bus s₁ (.replicate 512 0xAA) := by
    rw [hp₁.refused_iff (hram.mono (by decide)) (by decide), Bool.not_eq_false,
      SDCtrl.readBlock_iff, hcard]
    exact ⟨_, rfl, _, SDCardModel.holds_opened _, by simp [InImage, twoBlocks]⟩
  obtain ⟨s₂, h₂, hp₂⟩ := hp₁.round (hram.mono (by decide)) (by decide) hserved
  have href : Refused pageMap.bus s₂ (.replicate 512 0xAA) := by
    rw [hp₂.refused_iff hram (by decide), ← Bool.not_eq_true, SDCtrl.readBlock_iff]
    rintro ⟨card, hmem, image, hold, hin⟩
    have himage : some image = some (.replicate 512 0x55) := by
      rw [← hold.file]
      exact (congrArg (·.bind (·.file.file)) hmem).symm.trans hp₂.image
    cases himage
    simp [InImage, sdBlockSize, twoBlocks] at hin
  refine sd_transfer pageMap.bus twoBlocks hs _ _ (by decide) 1 ⟨by decide, ?_, ?_⟩
    (hram.mono (by decide))
  · intro i hi hat
    obtain rfl : i = 0 := by omega
    obtain ⟨s', hs', hat⟩ := hat
    obtain rfl : s₁ = s' := Option.some.inj (h₁.symm.trans hs')
    exact hserved hat
  · exact fun _ => ⟨s₁, h₁, s₂, h₂, href⟩

end SdOnBus

end VirtualSoC
