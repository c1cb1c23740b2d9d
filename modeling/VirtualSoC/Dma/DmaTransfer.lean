import VirtualSoC.Bus.RamRange
import VirtualSoC.Dma.DmaSpec
import VirtualSoC.Lib.PartialRun

/-!
# DMA transfers

The thread of the DMA engine on the bus (`DmaOnBus`).  `dma_transfer` : a transfer inside a RAM
copies its bytes and nothing else, and one that the bus refuses at a burst has copied the bursts
before it.  What carries the proof is how far the copy has come (`Progress`): a burst is read as
a whole before it is written, so a copy downwards overwrites only bytes that it has read.
-/

namespace VirtualSoC

/-- `uint8_t buf[BURST_SIZE]`. -/
abbrev DmaBuf := Vector Byte 256

/-- The payload of a transaction, whose data pointer points to `buf`. -/
def DmaAccess.payload (a : DmaAccess) (buf : DmaBuf) : Payload 256 where
  command := a.command
  address := a.address.setWidth 64
  data := buf
  dataLength := a.dataLength

/-- The length of the next burst. -/
def DmaEngine.chunk (remaining : Word) : Word :=
  if burstSize < remaining then burstSize else remaining

/-- The engine with its thread, and the targets of the bus.  The registers of the engine are not
among them: a transfer whose bursts are served by a RAM does not reach them. -/
structure DmaOnBus (δ : Type*) where
  dma : Dma
  targets : ℕ → Target δ

namespace DmaOnBus

variable {δ : Type*} (bus : TlmBus)

/-- The kernel runs the thread, as in `Dma.resume`, and the bus answers it.  The array `buf` is not
initialised: its bytes are an input. -/
def resume [TlmDevice δ] (s : DmaOnBus δ) (buf : DmaBuf) : Option (DmaOnBus δ) :=
  match s.dma.thread with
  | .waiting => some { s with dma := (s.dma.resume .incomplete .incomplete).1 }
  | .copying remaining src dst =>
    if remaining > 0 then do
      let chunk := DmaEngine.chunk remaining
      let (rtrans, targets) ←
        bus.bTransport s.targets (DmaAccess.payload ⟨.read, src, chunk⟩ buf)
      if rtrans.response ≠ .ok then
        return ⟨(s.dma.resume rtrans.response .incomplete).1, targets⟩
      else
        let (wtrans, targets) ←
          bus.bTransport targets (DmaAccess.payload ⟨.write, dst, chunk⟩ rtrans.data)
        return ⟨(s.dma.resume rtrans.response wtrans.response).1, targets⟩
    else some { s with dma := (s.dma.resume .incomplete .incomplete).1 }

/-- The bus refuses the read or the write of the next burst. -/
def Refused [TlmDevice δ] (s : DmaOnBus δ) (buf : DmaBuf) : Prop :=
  ∃ remaining src dst, s.dma.thread = .copying remaining src dst ∧ remaining > 0 ∧
    ∃ rtrans targets, bus.bTransport s.targets
        (DmaAccess.payload ⟨.read, src, DmaEngine.chunk remaining⟩ buf) = some (rtrans, targets) ∧
      (rtrans.response ≠ .ok ∨ ∃ wtrans targets', bus.bTransport targets
          (DmaAccess.payload ⟨.write, dst, DmaEngine.chunk remaining⟩ rtrans.data) =
            some (wtrans, targets') ∧ wtrans.response ≠ .ok)

/-- A start is pending and the thread waits for it. -/
structure Starting (s : DmaOnBus δ) : Prop where
  thread : s.dma.thread = .waiting
  startEvent : s.dma.engine.startEvent = true

/-- Both ranges of a copy of `n` bytes are in one RAM, and are disjoint or copied downwards. -/
structure InsideRam (s : DmaOnBus δ) (r : MappedRange) (p : DmaParams) (n : ℕ) : Prop where
  src : InRam bus s.targets r p.src n
  dst : InRam bus s.targets r p.dst n
  order : (p.src.toNat + n ≤ p.dst.toNat ∨ p.dst.toNat + n ≤ p.src.toNat) ∨ p.dst ≤ p.src

/-- The first `n` bytes have been copied in the RAM, and nothing else has changed in a memory. -/
def Copied (r : MappedRange) (p : DmaParams) (n : ℕ) (targets targets' : ℕ → Target δ) : Prop :=
  RamFilled r p.dst n (fun i => (targets r.targetIdx).byte? (r.offset p.src + i)) targets targets'

/-- The transfer that starts in `s` has ended in `s'`, with `n` bytes copied. -/
structure Ended (s : DmaOnBus δ) (r : MappedRange) (n : ℕ) (status : Word) (s' : DmaOnBus δ) :
    Prop where
  thread : s'.dma.thread = .waiting
  status_eq : s'.dma.engine.status = status
  copied : Copied r s.dma.engine.params n s.targets s'.targets

end DmaOnBus

/-! ### Termination -/

theorem DmaEngine.toNat_chunk (remaining : Word) :
    (chunk remaining).toNat = min remaining.toNat 256 := by
  unfold chunk burstSize
  split
  next h =>
    rw [BitVec.lt_def] at h
    exact (Nat.min_eq_right (Nat.le_of_lt h)).symm
  next h =>
    rw [BitVec.lt_def, Nat.not_lt] at h
    exact (Nat.min_eq_left h).symm

theorem DmaEngine.chunk_sub {count : Word} {n c : ℕ} (hn : n < count.toNat)
    (hc : c = min (count.toNat - n) 256) :
    count - BitVec.ofNat 32 n > 0 ∧ chunk (count - BitVec.ofNat 32 n) = BitVec.ofNat 32 c := by
  have hlt := count.isLt
  have hrem : (count - BitVec.ofNat 32 n).toNat = count.toNat - n := by
    rw [BitVec.toNat_sub, BitVec.toNat_ofNat]
    omega
  constructor
  · rw [gt_iff_lt, BitVec.lt_def, hrem]
    exact Nat.sub_pos_of_lt hn
  · apply BitVec.eq_of_toNat_eq
    rw [toNat_chunk, hrem, BitVec.toNat_ofNat, ← hc, Nat.mod_eq_of_lt (by omega)]

/-- The kernel runs the thread. -/
def DmaInput.isResume : DmaInput → Bool
  | .transport .. => false
  | .resume .. => true

namespace Dma

/-- How often the thread runs from the head of its loop until it waits, at most: for the bursts
and the end. -/
def rounds (remaining : Word) : ℕ := (remaining.toNat + 255) / 256 + 1

/-- A round of the loop ends it or makes less remain. -/
theorem resume_copying {d : Dma} {remaining src dst : Word}
    (hthread : d.thread = .copying remaining src dst) (rresp wresp : TlmResponse) :
    (d.resume rresp wresp).1.thread = .waiting ∨
      ∃ remaining' src' dst', (d.resume rresp wresp).1.thread = .copying remaining' src' dst' ∧
        rounds remaining' + 1 ≤ rounds remaining := by
  rw [Dma.resume, hthread]
  dsimp only
  split
  next hpos =>
    split
    · exact .inl rfl
    · split
      · exact .inl rfl
      · refine .inr ⟨_, _, _, rfl, ?_⟩
        have hchunk := DmaEngine.toNat_chunk remaining
        have hle : DmaEngine.chunk remaining ≤ remaining := by
          rw [BitVec.le_def, hchunk]
          exact Nat.min_le_left ..
        have hrem := BitVec.toNat_sub_of_le hle
        have hpos' : 0 < remaining.toNat := hpos
        rw [hchunk] at hrem
        change rounds (remaining - DmaEngine.chunk remaining) + 1 ≤ _
        rw [rounds, rounds, hrem]
        omega
  · exact .inl rfl

/-- The loop ends, whatever the bus answers and whoever accesses the registers meanwhile. -/
theorem loop_terminates {d : Dma} {remaining src dst : Word}
    (hthread : d.thread = .copying remaining src dst) (is : List DmaInput)
    (hlen : rounds remaining ≤ is.countP (·.isResume)) :
    ∃ pre, pre <+: is ∧ (dmaMachine.run d pre).thread = .waiting := by
  induction is generalizing d remaining src dst with
  | nil => exact absurd hlen (Nat.not_succ_le_zero _)
  | cons x is ih =>
    cases x with
    | transport payload fits =>
      have hnext : (dmaMachine.next d (.transport payload fits)).thread =
          .copying remaining src dst := by rw [next_transport, ← hthread]
      rw [List.countP_cons_of_neg (by simp [DmaInput.isResume])] at hlen
      obtain ⟨pre, hpre, hwait⟩ := ih hnext hlen
      exact ⟨_ :: pre, (List.prefix_cons_inj _).2 hpre, hwait⟩
    | resume rresp wresp =>
      rw [List.countP_cons_of_pos (by simp [DmaInput.isResume])] at hlen
      rcases resume_copying hthread rresp wresp with hwait | ⟨remaining', src', dst', hnext, hless⟩
      · exact ⟨[.resume rresp wresp], ⟨is, rfl⟩, hwait⟩
      · obtain ⟨pre, hpre, hwait⟩ := ih hnext (by omega)
        exact ⟨_ :: pre, (List.prefix_cons_inj _).2 hpre, hwait⟩

end Dma

namespace DmaOnBus

variable {δ : Type*} [TlmDevice δ] {bus : TlmBus} {s s' : DmaOnBus δ}

/-! ### The copy -/

/-- `n` bytes of the transfer that starts in `s₀` have been copied. -/
structure Progress (s₀ : DmaOnBus δ) (r : MappedRange) (n : ℕ) (s : DmaOnBus δ) : Prop where
  dma : s.dma =
    { engine := { s₀.dma.engine with startEvent := false, status := 1 }
      thread := .copying (s₀.dma.engine.byteCount - BitVec.ofNat 32 n)
        (s₀.dma.engine.srcAddr + BitVec.ofNat 32 n) (s₀.dma.engine.dstAddr + BitVec.ofNat 32 n) }
  copied : Copied r s₀.dma.engine.params n s₀.targets s.targets
  ramSize : ∀ j, (s.targets j).ramSize = (s₀.targets j).ramSize

variable {s₀ : DmaOnBus δ} {r : MappedRange} {n : ℕ} {buf : DmaBuf}

omit [TlmDevice δ] in
theorem InsideRam.mono {p : DmaParams} {k : ℕ} (h : s.InsideRam bus r p n) (hk : k ≤ n) :
    s.InsideRam bus r p k where
  src := h.src.mono hk
  dst := h.dst.mono hk
  order := by
    rcases h.order with (hsrc | hdst) | hle
    · exact .inl (.inl (by omega))
    · exact .inl (.inr (by omega))
    · exact .inr hle

omit [TlmDevice δ] in
/-- The order of the ranges, as the memory sees them. -/
theorem InsideRam.order_offset {p : DmaParams} (h : s.InsideRam bus r p n) (hn : 0 < n) :
    r.offset p.dst ≤ r.offset p.src ∨ r.offset p.src + n ≤ r.offset p.dst := by
  have hbase := h.src.base_le hn
  have hbase' := h.dst.base_le hn
  have horder := h.order
  rw [BitVec.le_def] at horder
  rw [h.src.offset_addr hn, h.dst.offset_addr hn]
  omega

theorem resume_waiting (hthread : s.dma.thread = .waiting) (buf : DmaBuf) :
    resume bus s buf = some { s with dma := (s.dma.resume .incomplete .incomplete).1 } := by
  rw [resume, hthread]

variable (bus) in
theorem Starting.progress (hs : s.Starting) (r : MappedRange) (buf : DmaBuf) :
    ∃ s', resume bus s buf = some s' ∧ Progress s r 0 s' := by
  refine ⟨_, resume_waiting hs.thread buf, ?_, .nothing .., fun _ => rfl⟩
  dsimp only
  rw [Dma.resume, hs.thread]
  dsimp only
  rw [if_pos hs.startEvent, BitVec.sub_zero, BitVec.add_zero, BitVec.add_zero]

/-- A thread that waits with no start pending stays where it is. -/
theorem resume_idle (hthread : s.dma.thread = .waiting) (hev : s.dma.engine.startEvent = false)
    (buf : DmaBuf) : resume bus s buf = some s := by
  rw [resume_waiting hthread, Dma.resume, hthread]
  dsimp only
  rw [hev]
  rfl

theorem resume_end {remaining src dst : Word} (hthread : s.dma.thread = .copying remaining src dst)
    (hzero : ¬ remaining > 0) :
    resume bus s buf = some { s with dma := s.dma.finish true } := by
  rw [resume, hthread]
  dsimp only
  rw [if_neg hzero, Dma.resume, hthread]
  dsimp only
  rw [if_neg hzero]

/-- A burst that the bus refuses ends the transfer, and changes no byte of a memory. -/
theorem Refused.resume_eq (h : s.Refused bus buf) :
    ∃ targets, resume bus s buf = some { dma := s.dma.finish false, targets } ∧
      ∀ j, (targets j).byte? = (s.targets j).byte? := by
  obtain ⟨remaining, src, dst, hthread, hpos, rtrans, targets, hread, hresp⟩ := h
  have hsame := TlmBus.byte?_of_bTransport hread (.inl nofun)
  rw [resume, hthread]
  dsimp only
  rw [if_pos hpos, hread, Option.bind_eq_bind, Option.bind_some]
  dsimp only
  by_cases hr : rtrans.response = .ok
  · rw [if_neg (not_not.2 hr)]
    obtain ⟨wtrans, targets', hwrite, hw⟩ := hresp.resolve_left (not_not.2 hr)
    refine ⟨targets', ?_, fun j => ?_⟩
    · rw [hwrite, Option.bind_some, Dma.resume, hthread]
      dsimp only
      rw [if_pos hpos, if_neg (not_not.2 hr), if_pos hw]
      rfl
    · exact (TlmBus.byte?_of_bTransport hwrite (.inr hw) j).trans (hsame j)
  · refine ⟨targets, ?_, hsame⟩
    rw [if_pos hr, Dma.resume, hthread]
    dsimp only
    rw [if_pos hpos, if_pos hr]
    rfl

theorem resume_copied {remaining src dst : Word} {rtrans wtrans : Payload 256}
    {targets targets' : ℕ → Target δ} (hthread : s.dma.thread = .copying remaining src dst)
    (hpos : remaining > 0)
    (hread : bus.bTransport s.targets
      (DmaAccess.payload ⟨.read, src, DmaEngine.chunk remaining⟩ buf) = some (rtrans, targets))
    (hr : rtrans.response = .ok)
    (hwrite : bus.bTransport targets
      (DmaAccess.payload ⟨.write, dst, DmaEngine.chunk remaining⟩ rtrans.data) =
        some (wtrans, targets'))
    (hw : wtrans.response = .ok) :
    resume bus s buf = some
      { dma := { s.dma with
          thread := .copying (remaining - DmaEngine.chunk remaining)
            (src + DmaEngine.chunk remaining) (dst + DmaEngine.chunk remaining) }
        targets := targets' } := by
  rw [resume, hthread]
  dsimp only
  rw [if_pos hpos, hread, Option.bind_eq_bind, Option.bind_some]
  dsimp only
  rw [if_neg (not_not.2 hr), hwrite, Option.bind_some, Dma.resume, hthread]
  dsimp only
  rw [if_pos hpos, if_neg (not_not.2 hr), if_neg (not_not.2 hw)]
  rfl

theorem Progress.burst (h : Progress s₀ r n s) (hn : n < s₀.dma.engine.byteCount.toNat) {c : ℕ}
    (hc : c = min (s₀.dma.engine.byteCount.toNat - n) 256)
    (hin : s₀.InsideRam bus r s₀.dma.engine.params (n + c)) (buf : DmaBuf) :
    ∃ s', resume bus s buf = some s' ∧ Progress s₀ r (n + c) s' := by
  obtain ⟨hpos, hchunk⟩ := DmaEngine.chunk_sub hn hc
  have hc0 : 0 < c := by omega
  have hlen : (DmaEngine.chunk (s₀.dma.engine.byteCount - BitVec.ofNat 32 n)).toNat = c := by
    rw [hchunk, BitVec.toNat_ofNat, Nat.mod_eq_of_lt (by omega)]
  have hsrc := (hin.src.part (Nat.le_refl _)).congr (h.ramSize r.targetIdx)
  have hdst := (hin.dst.part (Nat.le_refl _)).congr (h.ramSize r.targetIdx)
  obtain ⟨data, hread, hdata⟩ := hsrc.read hc0
    (DmaAccess.payload ⟨.read, _, DmaEngine.chunk _⟩ buf) rfl hlen (by omega) rfl
  obtain ⟨targets', hwrite, hfilled, hsize⟩ := hdst.write hc0
    (DmaAccess.payload ⟨.write, _, DmaEngine.chunk _⟩ data) rfl hlen (by omega) rfl
  have hthread := congrArg Dma.thread h.dma
  refine ⟨_, resume_copied hthread hpos hread rfl hwrite rfl, ?_, ?_,
    fun j => (hsize j).trans (h.ramSize j)⟩
  · rw [hchunk, h.dma, BitVec.ofNat_add, ← BitVec.sub_sub, ← BitVec.add_assoc, ← BitVec.add_assoc]
  · refine h.copied.append (hin.dst.offset_add (Nat.le_add_right ..)) hfilled fun i hi => ?_
    -- the source of the burst has not been overwritten by the bursts before it
    have hkept := h.copied.ram.source_eq (hin.order_offset (by omega)) hi
    rw [← Nat.add_assoc]
    refine (hdata i hi).trans ?_
    rw [hin.src.offset_add (Nat.le_add_right ..)]
    exact hkept

/-! ### Runs -/

theorem Starting.exists_run (hs : s.Starting) {k : ℕ}
    (hk : k ≤ (s.dma.engine.byteCount.toNat + 255) / 256)
    (hin : s.InsideRam bus r s.dma.engine.params (min (256 * k) s.dma.engine.byteCount.toNat))
    {bufs : List DmaBuf} (hlen : bufs.length = k + 1) :
    ∃ s', PartialRun.run (resume bus) s bufs = some s' ∧
      Progress s r (min (256 * k) s.dma.engine.byteCount.toNat) s' := by
  obtain ⟨buf, bufs, rfl⟩ := List.exists_cons_of_length_eq_add_one hlen
  rw [List.length_cons, Nat.add_right_cancel_iff] at hlen
  obtain ⟨s₁, hstart, h₁⟩ := hs.progress bus r buf
  have hstep : ∀ j s' buf, j < k →
      Progress s r (min (256 * j) s.dma.engine.byteCount.toNat) s' → ¬ False →
      ∃ s'', resume bus s' buf = some s'' ∧
        Progress s r (min (256 * (j + 1)) s.dma.engine.byteCount.toNat) s'' := by
    intro j s' buf hj hp _
    rw [Nat.min_eq_left (by omega)] at hp
    have hburst := hp.burst (by omega) rfl (hin.mono (by omega)) buf
    rwa [show 256 * j + min (s.dma.engine.byteCount.toNat - 256 * j) 256 =
      min (256 * (j + 1)) s.dma.engine.byteCount.toNat by omega] at hburst
  obtain ⟨s', hrun, hp⟩ := PartialRun.exists_run hstep (k := 0)
    (by rwa [Nat.mul_zero, Nat.zero_min]) bufs (by omega)
    fun _ _ => PartialRun.not_at_false
  rw [Nat.zero_add, hlen] at hp
  exact ⟨s', by rw [PartialRun.run_cons hstart, hrun], hp⟩

omit [TlmDevice δ] in
/-- The state in which the thread has left the loop. -/
theorem Progress.ended (h : Progress s₀ r n s) (ok : Bool) {targets : ℕ → Target δ}
    (hsame : ∀ j, (targets j).byte? = (s.targets j).byte?) :
    Ended s₀ r n (if ok then 2 else 6) { dma := s.dma.finish ok, targets } where
  thread := rfl
  status_eq := rfl
  copied := h.copied.unchanged hsame

theorem Progress.run_finish (h : Progress s₀ r n s) (ok : Bool) (targets : ℕ → Target δ)
    (bufs : List DmaBuf) :
    PartialRun.run (resume bus) { dma := s.dma.finish ok, targets } bufs =
      some { dma := s.dma.finish ok, targets } :=
  PartialRun.run_idle (resume_idle rfl (congrArg (·.engine.startEvent) h.dma)) bufs

/-- A transfer inside the RAM: the start and all bursts, the end, and idle rounds. -/
theorem Starting.run_inside (hs : s.Starting)
    (hin : s.InsideRam bus r s.dma.engine.params s.dma.engine.byteCount.toNat)
    {bufs : List DmaBuf} (hlen : Dma.rounds s.dma.engine.byteCount + 1 ≤ bufs.length) :
    ∃ s', PartialRun.run (resume bus) s bufs = some s' ∧
      Ended s r s.dma.engine.byteCount.toNat 2 s' := by
  obtain ⟨k, hk⟩ : ∃ k, k = (s.dma.engine.byteCount.toNat + 255) / 256 := ⟨_, rfl⟩
  have hall : min (256 * k) s.dma.engine.byteCount.toNat = s.dma.engine.byteCount.toNat := by omega
  rw [Dma.rounds, ← hk] at hlen
  obtain ⟨before, buf, after, rfl, hbefore⟩ :=
    PartialRun.exists_split (show k + 1 < bufs.length by omega)
  obtain ⟨s', hrun, hp⟩ := hs.exists_run (Nat.le_of_eq hk) (by rwa [hall]) hbefore
  rw [hall] at hp
  have hend : resume bus s' buf = some { s' with dma := s'.dma.finish true } :=
    resume_end (congrArg Dma.thread hp.dma) (by simp)
  refine ⟨_, ?_, hp.ended true fun _ => rfl⟩
  rw [PartialRun.run_append, hrun, Option.bind_some, PartialRun.run_cons hend, hp.run_finish]

/-- A transfer that the bus refuses at the burst `k`. -/
theorem Starting.run_refused (hs : s.Starting) {k : ℕ}
    (hk : 256 * k < s.dma.engine.byteCount.toNat)
    (hin : s.InsideRam bus r s.dma.engine.params (256 * k)) {bufs : List DmaBuf}
    (hat : PartialRun.At (resume bus) (Refused bus) s bufs (k + 1)) :
    ∃ s', PartialRun.run (resume bus) s bufs = some s' ∧ Ended s r (256 * k) 6 s' := by
  have hall : min (256 * k) s.dma.engine.byteCount.toNat = 256 * k :=
    Nat.min_eq_left (Nat.le_of_lt hk)
  obtain ⟨before, buf, after, s', rfl, hbefore, hrun, href⟩ := hat.exists_split
  obtain ⟨s'', hrun', hp⟩ := hs.exists_run (by omega) (by rwa [hall]) hbefore
  obtain rfl : s'' = s' := Option.some.inj (hrun'.symm.trans hrun)
  rw [hall] at hp
  obtain ⟨targets, hend, hsame⟩ := href.resume_eq
  refine ⟨_, ?_, hp.ended false hsame⟩
  rw [PartialRun.run_append, hrun, Option.bind_some, PartialRun.run_cons hend, hp.run_finish]

/-- **A DMA transfer copies exactly the requested bytes.**  The loop ends for every byte count.
Inside a RAM, with disjoint ranges or the destination not above the source, the destination gets
the bytes of the source, no other byte of a memory changes, and the status is done.  When the bus
refuses a burst instead, what the bursts before it have moved is copied, nothing else has changed,
and the status is done with error.  The step with the number 0 is the start.

The refusals are those that the engine is answered: nothing is mapped, or a device refuses.  A burst
that overruns a RAM is reported, which throws unless the actions of the report have been changed
(`Memory.Overruns`); the engine sees the refusal only where the report returns. -/
theorem dma_transfer (bus : TlmBus) (s : DmaOnBus δ) (hs : s.Starting) :
    let p := s.dma.engine.params
    (∀ (d : Dma) (remaining src dst : Word), d.thread = .copying remaining src dst →
      ∀ is : List DmaInput, Dma.rounds remaining ≤ is.countP (·.isResume) →
        ∃ pre, pre <+: is ∧ (dmaMachine.run d pre).thread = .waiting) ∧
    (∀ r, s.InsideRam bus r p p.count.toNat →
      ∀ bufs : List DmaBuf, Dma.rounds p.count + 1 ≤ bufs.length →
        ∃ s', PartialRun.run (resume bus) s bufs = some s' ∧ Ended s r p.count.toNat 2 s') ∧
    ∀ r k, 256 * k < p.count.toNat → s.InsideRam bus r p (256 * k) →
      ∀ bufs, PartialRun.At (resume bus) (Refused bus) s bufs (k + 1) →
        ∃ s', PartialRun.run (resume bus) s bufs = some s' ∧ Ended s r (256 * k) 6 s' :=
  ⟨fun _ _ _ _ hthread is => Dma.loop_terminates hthread is,
    fun _ hin _ => hs.run_inside hin,
    fun _ _ hk hin _ => hs.run_refused hk hin⟩

/-! A RAM of one page, in which 300 bytes are copied over their own beginning, and a transfer from an
address that is not mapped. -/

/-- 300 bytes are to be copied to the beginning of the page. -/
def pageStart (src : Word) : DmaOnBus PEmpty where
  dma := { engine := { srcAddr := src, dstAddr := 0x80000000, byteCount := 300, startEvent := true } }
  targets _ := .memory (.new 0x1000)

theorem dma_transfer_page :
    (∃ s', PartialRun.run (resume pageMap.bus) (pageStart 0x80000010)
        (.replicate 4 (.replicate 256 0xAA)) = some s' ∧
      Ended (pageStart 0x80000010) ⟨0x80000000, 0x1000, 0⟩ 300 2 s') ∧
    ∃ s', PartialRun.run (resume pageMap.bus) (pageStart 0) (.replicate 2 (.replicate 256 0xAA)) =
        some s' ∧ Ended (pageStart 0) ⟨0x80000000, 0x1000, 0⟩ 0 6 s' := by
  constructor
  · refine (dma_transfer pageMap.bus (pageStart 0x80000010) ⟨rfl, rfl⟩).2.1 _ ⟨?_, ?_, ?_⟩ _ ?_
    · exact mapped_pageMap.inRam (by decide) (k := 0) rfl rfl (by decide) (by decide)
    · exact mapped_pageMap.inRam (by decide) (k := 0) rfl rfl (by decide) (by decide)
    · exact .inr (by decide)
    · decide
  · refine (dma_transfer pageMap.bus (pageStart 0) ⟨rfl, rfl⟩).2.2 _ 0 (by decide)
      ⟨.nothing, .nothing, .inl (.inl (by decide))⟩ _ ?_
    refine ⟨_, rfl, _, _, _, rfl, by decide, _, _, rfl, .inl nofun⟩

end DmaOnBus

end VirtualSoC
