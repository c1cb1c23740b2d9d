import Mathlib.Data.List.Forall2
import VirtualSoC.Sd.SdCardModel

/-!
# What the SD card reads

A call of `read_block` should depend on the image and the block number only (`ReadsRight`).  The
stream of the card keeps `failbit` over calls, and nothing clears it: the first call for a block
that is not wholly in the image makes every later call fail.  So a sequence of calls is served
right exactly if no block of the image is asked for after such a call
(`SDCardModel.readBlock_right_iff`).
-/

namespace VirtualSoC

/-- The block is wholly in the image. -/
def InImage (image : Array Byte) (block : Word) : Prop :=
  (block.toNat + 1) * sdBlockSize ≤ image.size

instance (image : Array Byte) (block : Word) : Decidable (InImage image block) :=
  inferInstanceAs (Decidable (_ ≤ _))

/-- The result of a call that depends on the image and the block only. -/
def ReadsRight (image : Array Byte) (call : Word × SdBlock) (result : Bool × SdBlock) : Prop :=
  (result.1 = true ↔ InImage image call.1) ∧
    (InImage image call.1 →
      ∀ i < sdBlockSize, result.2[i]? = image[sdBlockSize * call.1.toNat + i]?)

namespace SDCardModel

/-- The card has the image, and `failed` tells whether an earlier call has failed. -/
structure Holds (image : Array Byte) (failed : Bool) (card : SDCardModel) : Prop where
  file : card.file.file = some image
  failbit : card.file.failbit = failed

variable {image : Array Byte} {card : SDCardModel} (block : Word) (buf : SdBlock)

theorem holds_opened (image : Array Byte) : Holds image false (opened image) := ⟨rfl, rfl⟩

theorem Holds.isOpen {failed : Bool} (h : Holds image failed card) : card.file.isOpen = true := by
  simp [IFStream.isOpen, h.file]

/-- On a card without a failure, a call does what it should, and fails the card when the block is
not in the image. -/
theorem readBlock_good (h : Holds image false card) :
    ReadsRight image (block, buf) (machine.out card (block, buf)) ∧
      Holds image (!decide (InImage image block)) (machine.next card (block, buf)) := by
  obtain ⟨s, hseek⟩ : ∃ s, card.file.seekg (block.toNat * sdBlockSize) = s := ⟨_, rfl⟩
  have hcall : card.readBlock block buf = if s.failbit then (false, buf, { file := s }) else
      (decide ((s.read buf).2.gcount = sdBlockSize), (s.read buf).1, { file := (s.read buf).2 }) := by
    simp only [readBlock, h.isOpen, hseek, Bool.not_true, Bool.false_eq_true, if_false]
  rw [IFStream.seekg_good h.file h.failbit] at hseek
  have hfile : s.file = some image := by rw [← hseek, h.file]
  have heof : s.eofbit = false := by rw [← hseek]
  have hfail : s.failbit = false := by rw [← hseek, h.failbit]
  have hpos : s.pos = sdBlockSize * block.toNat := by rw [← hseek, Nat.mul_comm]
  rw [hfail, if_neg Bool.false_ne_true] at hcall
  simp only [Machine.out, Machine.next, machine, hcall]
  by_cases hin : InImage image block
  · have hle : s.pos + sdBlockSize ≤ image.size := by
      rwa [hpos, ← Nat.mul_succ, Nat.mul_comm]
    obtain ⟨hread, hbuf⟩ := IFStream.read_full hfile heof hfail buf hle
    refine ⟨⟨by simp [hread, hin], fun _ i hi => ?_⟩, ?_, ?_⟩
    · rw [hbuf i hi, hpos]
    · rw [hread, hfile]
    · simp [hread, hin, hfail]
  · have hlt : image.size < s.pos + sdBlockSize := by
      rw [hpos, ← Nat.mul_succ, Nat.mul_comm]
      exact Nat.lt_of_not_le hin
    obtain ⟨hfile', hfail', hcount⟩ :=
      IFStream.read_short hfile heof hfail buf (Nat.succ_pos _) hlt
    exact ⟨⟨by simp [Nat.ne_of_lt hcount, hin], fun h => absurd h hin⟩, hfile',
      by simpa [hin] using hfail'⟩

theorem readBlock_failed (h : Holds image true card) :
    machine.out card (block, buf) = (false, buf) ∧
      Holds image true (machine.next card (block, buf)) := by
  have hcall : card.readBlock block buf =
      (false, buf, { file := { card.file with eofbit := false } }) := by
    rw [readBlock, h.isOpen, IFStream.seekg_failed h.failbit]
    simp [h.failbit]
  simp only [Machine.out, Machine.next, machine, hcall]
  exact ⟨trivial, h.file, h.failbit⟩

/-- A failed card serves a sequence of calls right if none of them asks for a block of the image. -/
theorem trace_failed (h : Holds image true card) (calls : List (Word × SdBlock)) :
    List.Forall₂ (ReadsRight image) calls (machine.trace card calls) ↔
      ∀ call ∈ calls, ¬ InImage image call.1 := by
  induction calls generalizing card with
  | nil => simp [Machine.trace]
  | cons call calls ih =>
    obtain ⟨hout, hnext⟩ := readBlock_failed call.1 call.2 h
    have hcall : ReadsRight image call (false, call.2) ↔ ¬ InImage image call.1 := by
      refine ⟨fun hr hin => ?_, fun hin => ⟨by simp [hin], fun h => absurd h hin⟩⟩
      exact nomatch hr.1.2 hin
    rw [Machine.trace, List.forall₂_cons, ih hnext, hout, hcall, List.forall_mem_cons]

/-- A card without a failure serves a sequence of calls right if none of them asks for a block of
the image after one that is not in the image. -/
theorem trace_good (h : Holds image false card) (calls : List (Word × SdBlock)) :
    List.Forall₂ (ReadsRight image) calls (machine.trace card calls) ↔
      calls.Pairwise fun call later => InImage image call.1 ∨ ¬ InImage image later.1 := by
  induction calls generalizing card with
  | nil => simp [Machine.trace]
  | cons call calls ih =>
    obtain ⟨hout, hnext⟩ := readBlock_good call.1 call.2 h
    rw [Machine.trace, List.forall₂_cons, List.pairwise_cons, and_iff_right hout]
    by_cases hin : InImage image call.1
    · simp only [hin, decide_true, Bool.not_true] at hnext
      rw [ih hnext]
      simp [hin]
    · simp only [hin, decide_false, Bool.not_false] at hnext
      rw [trace_failed hnext]
      simp only [hin, false_or]
      exact ⟨fun h =>
        ⟨h, List.pairwise_of_forall_mem_list fun _ _ later hl => .inr (h later hl)⟩, And.left⟩

/-- **Which sequences of `read_block` calls depend on the image and the block numbers only**: those
that ask for no block of the image after one that is not wholly in it. -/
theorem readBlock_right_iff (image : Array Byte) (calls : List (Word × SdBlock)) :
    List.Forall₂ (ReadsRight image) calls (machine.trace (opened image) calls) ↔
      calls.Pairwise fun call later => InImage image call.1 ∨ ¬ InImage image later.1 :=
  trace_good (holds_opened image) calls

/-- One probe past the end of a card of one block, and the block is lost. -/
theorem readBlock_after_probe : ¬ ∀ (image : Array Byte) (calls : List (Word × SdBlock)),
    List.Forall₂ (ReadsRight image) calls (machine.trace (opened image) calls) := by
  intro h
  have hcalls := (trace_good (holds_opened _) _).1
    (h (.replicate 512 0) [(1, .replicate _ 0), (0, .replicate _ 0)])
  simp [InImage, sdBlockSize] at hcalls

end SDCardModel

end VirtualSoC
