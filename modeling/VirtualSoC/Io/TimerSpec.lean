import VirtualSoC.Bus.TlmBus
import VirtualSoC.Io.Timer
import VirtualSoC.Lib.Bits

/-!
# The timers over whole runs

The interrupt lines of the CLINT and of the timer show the comparison of their 64-bit numbers after
every step (`clint_lines`, `timer_line`), whatever halves of these have been written.  A 64-bit
number whose halves are two registers is a `WordPair`.
-/

namespace VirtualSoC

instance : TlmDevice Clint where
  transport trans c := c.bTransport trans

instance : TlmDevice Timer where
  transport trans t := t.bTransport trans

/-! ### Words -/

/-- A write of the word `val` to the register at `addr`. -/
structure Payload.WritesWord {n : ℕ} (trans : Payload n) (addr val : Word) : Prop where
  command : trans.command = .write
  address : trans.address.setWidth 32 = addr
  length : trans.dataLength = 4
  value : trans.getWord = some val

/-- A read of a word from the register at `addr`. -/
structure Payload.ReadsWord {n : ℕ} (trans : Payload n) (addr : Word) : Prop where
  command : trans.command ≠ .write
  address : trans.address.setWidth 32 = addr
  length : trans.dataLength = 4
  fits : 4 ≤ n

/-- The halves of `f` are the registers at `lo` and `hi`.  `rest` is what else the device keeps. -/
structure WordPair {σ τ : Type*} [TlmDevice σ] (f : σ → BitVec 64) (rest : σ → τ) (lo hi : Word) :
    Prop where
  /-- A write of one half changes this half only. -/
  write_lo {n : ℕ} (s : σ) {trans : Payload n} {val : Word} (h : trans.WritesWord lo val) :
    ∃ t s', TlmDevice.transport trans s = some (t, s') ∧ t.response = .ok ∧
      Halves.lo (f s') = val ∧ Halves.hi (f s') = Halves.hi (f s) ∧ rest s' = rest s
  write_hi {n : ℕ} (s : σ) {trans : Payload n} {val : Word} (h : trans.WritesWord hi val) :
    ∃ t s', TlmDevice.transport trans s = some (t, s') ∧ t.response = .ok ∧
      Halves.hi (f s') = val ∧ Halves.lo (f s') = Halves.lo (f s) ∧ rest s' = rest s
  /-- Reads of both halves return the number, and change nothing. -/
  read {n m : ℕ} (s : σ) {trans : Payload n} {trans' : Payload m} (h : trans.ReadsWord lo)
    (h' : trans'.ReadsWord hi) :
    ∃ t t' v v', TlmDevice.transport trans s = some (t, s) ∧ t.getWord = some v ∧
      TlmDevice.transport trans' s = some (t', s) ∧ t'.getWord = some v' ∧ v' ++ v = f s

/-! ### Register devices -/

section

variable {σ : Type*} {access : σ → Bool → Word → Word → Option (Word × σ)} {n : ℕ}
  {trans : Payload n}

theorem exists_regTransport_write {s s' : σ} {addr val v : Word} (h : trans.WritesWord addr val)
    (hacc : access s true addr val = some (v, s')) :
    ∃ t, regTransport (access s) s trans = some (t, s') ∧ t.response = .ok := by
  refine ⟨{ trans with response := .ok }, ?_, rfl⟩
  rw [regTransport, if_pos h.command, h.value, h.address]
  dsimp only [Option.map_some]
  rw [hacc]

theorem exists_regTransport_readWord {s : σ} {addr val : Word} (h : trans.ReadsWord addr)
    (hacc : access s false addr 0 = some (val, s)) :
    ∃ t, regTransport (access s) s trans = some (t, s) ∧ t.getWord = some val := by
  obtain ⟨t, ht, -, hval⟩ :
      ∃ t, regTransport (access s) s trans = some (t, s) ∧ t.response = .ok ∧
        t.getWord = some val :=
    exists_regTransport_read s h.fits h.command (h.address.symm ▸ hacc)
  exact ⟨t, ht, hval⟩

/-- The halves of `f` as registers of a device whose words are served by `access`. -/
theorem wordPair_of_access [TlmDevice σ] {τ : Type*} {f : σ → BitVec 64} {rest : σ → τ}
    {lo hi : Word}
    (htrans : ∀ {n : ℕ} (s : σ) (trans : Payload n), trans.dataLength = 4 →
      TlmDevice.transport trans s = regTransport (access s) s trans)
    (hwlo : ∀ s val, ∃ v s', access s true lo val = some (v, s') ∧
      f s' = Halves.setLo (f s) val ∧ rest s' = rest s)
    (hwhi : ∀ s val, ∃ v s', access s true hi val = some (v, s') ∧
      f s' = Halves.setHi (f s) val ∧ rest s' = rest s)
    (hrlo : ∀ s, access s false lo 0 = some (Halves.lo (f s), s))
    (hrhi : ∀ s, access s false hi 0 = some (Halves.hi (f s), s)) :
    WordPair f rest lo hi where
  write_lo s trans val h := by
    obtain ⟨v, s', hacc, hf, hrest⟩ := hwlo s val
    obtain ⟨t, ht, hok⟩ := exists_regTransport_write h hacc
    refine ⟨t, s', by rw [htrans s trans h.length, ht], hok, ?_, ?_, hrest⟩
    · rw [hf, Halves.lo_setLo]
    · rw [hf, Halves.hi_setLo]
  write_hi s trans val h := by
    obtain ⟨v, s', hacc, hf, hrest⟩ := hwhi s val
    obtain ⟨t, ht, hok⟩ := exists_regTransport_write h hacc
    refine ⟨t, s', by rw [htrans s trans h.length, ht], hok, ?_, ?_, hrest⟩
    · rw [hf, Halves.hi_setHi]
    · rw [hf, Halves.lo_setHi]
  read s trans trans' h h' := by
    obtain ⟨t, ht, hv⟩ := exists_regTransport_readWord h (hrlo s)
    obtain ⟨t', ht', hv'⟩ := exists_regTransport_readWord h' (hrhi s)
    exact ⟨t, t', _, _, by rw [htrans s trans h.length, ht], hv,
      by rw [htrans s trans' h'.length, ht'], hv', Halves.append_halves (f s)⟩

end

theorem and_one_ne_zero_iff (val : Word) : val &&& 1 ≠ 0 ↔ val.getLsbD 0 = true := by
  rw [show (1 : Word) = BitVec.twoPow 32 0 by decide, Ne, Bits.and_twoPow_eq_zero val (by decide)]
  exact iff_of_eq (Bool.not_eq_false _)

/-! ### The CLINT -/

namespace Clint

variable {c c' : Clint}

/-- What the lines show. -/
structure Lines (c : Clint) : Prop where
  timer : c.timerIrq = true ↔ c.mtimecmp.toNat ≤ c.mtime.toNat
  sw : c.swIrq = true ↔ c.msip.getLsbD 0 = true

theorem lines_updateTimerIrq (h : c.swIrq = true ↔ c.msip.getLsbD 0 = true) :
    c.updateTimerIrq.Lines :=
  ⟨decide_eq_true_iff, h⟩

/-- A write of `msip` drives the software line with the bit that is kept. -/
theorem sw_write (val : Word) :
    decide (val &&& 1 ≠ 0) = true ↔ (val &&& 1).getLsbD 0 = true := by
  rw [decide_eq_true_iff, ← and_one_ne_zero_iff, BitVec.and_assoc, BitVec.and_self]

theorem Lines.access {isWrite : Bool} {addr val v : Word} (h : c.Lines)
    (hacc : c.access isWrite addr val = some (v, c')) : c'.Lines := by
  unfold Clint.access at hacc
  repeat' split at hacc
  all_goals cases hacc
  all_goals first
    | exact h
    | exact lines_updateTimerIrq h.sw
    | exact ⟨h.timer, sw_write val⟩

theorem Lines.next (h : c.Lines) (i : TickInput) : (clintMachine.next c i).Lines := by
  cases i with
  | tick => exact lines_updateTimerIrq h.sw
  | transport payload fits =>
    obtain ⟨x, hx⟩ := Option.isSome_iff_exists.1 (c.isSome_bTransport payload fits)
    have hnext : clintMachine.next c (.transport payload fits) = x.2 :=
      congrArg Prod.snd (Option.get_of_eq_some _ hx)
    rw [hnext]
    rw [bTransport] at hx
    split at hx
    · cases hx
      exact h
    · rcases exists_access_of_regTransport hx with heq | ⟨_, _, _, _, hacc⟩
      · exact heq ▸ h
      · exact h.access hacc

theorem lines_run (is : List TickInput) : (clintMachine.run {} is).Lines :=
  Machine.run_invariant ⟨by decide, by decide⟩ (fun _ i h => h.next i) is

theorem transport_word {n : ℕ} (c : Clint) (trans : Payload n) (h : trans.dataLength = 4) :
    TlmDevice.transport trans c = regTransport c.access c trans :=
  if_neg (not_not_intro h)

theorem wordPair_mtime :
    WordPair Clint.mtime (fun c => (c.mtimecmp, c.msip, c.swIrq)) 0xBFF8 0xBFFC :=
  wordPair_of_access transport_word (fun _ _ => ⟨_, _, rfl, rfl, rfl⟩)
    (fun _ _ => ⟨_, _, rfl, rfl, rfl⟩) (fun _ => rfl) fun _ => rfl

theorem wordPair_mtimecmp :
    WordPair Clint.mtimecmp (fun c => (c.mtime, c.msip, c.swIrq)) 0x4000 0x4004 :=
  wordPair_of_access transport_word (fun _ _ => ⟨_, _, rfl, rfl, rfl⟩)
    (fun _ _ => ⟨_, _, rfl, rfl, rfl⟩) (fun _ => rfl) fun _ => rfl

end Clint

/-! ### The timer -/

namespace Timer

variable {t t' : Timer}

/-- What the line shows. -/
def Line (t : Timer) : Prop :=
  t.irq = true ↔ t.ctrl.getLsbD 0 = true ∧ t.cmp.toNat ≤ t.time.toNat

theorem line_updateIrq (t : Timer) : t.updateIrq.Line :=
  decide_eq_true_iff.trans (and_congr_left' (and_one_ne_zero_iff t.ctrl))

theorem Line.access {isWrite : Bool} {addr val v : Word} (h : t.Line)
    (hacc : t.access isWrite addr val = some (v, t')) : t'.Line := by
  unfold Timer.access at hacc
  repeat' split at hacc
  all_goals cases hacc <;> first | exact h | exact line_updateIrq _

theorem Line.next (h : t.Line) (i : TickInput) : (timerMachine.next t i).Line := by
  cases i with
  | tick => exact line_updateIrq _
  | transport payload fits =>
    obtain ⟨x, hx⟩ := Option.isSome_iff_exists.1 (isSome_regTransport t.access t fits)
    have hnext : timerMachine.next t (.transport payload fits) = x.2 :=
      congrArg Prod.snd (Option.get_of_eq_some _ hx)
    rw [hnext]
    rcases exists_access_of_regTransport hx with heq | ⟨_, _, _, _, hacc⟩
    · exact heq ▸ h
    · exact h.access hacc

theorem line_run (is : List TickInput) : (timerMachine.run {} is).Line :=
  Machine.run_invariant (by rw [Line]; decide) (fun _ i h => h.next i) is

theorem wordPair_time : WordPair Timer.time (fun t => (t.cmp, t.ctrl)) 0x00 0x04 :=
  wordPair_of_access (fun _ _ _ => rfl) (fun _ _ => ⟨_, _, rfl, rfl, rfl⟩)
    (fun _ _ => ⟨_, _, rfl, rfl, rfl⟩) (fun _ => rfl) fun _ => rfl

theorem wordPair_cmp : WordPair Timer.cmp (fun t => (t.time, t.ctrl)) 0x08 0x0C :=
  wordPair_of_access (fun _ _ _ => rfl) (fun _ _ => ⟨_, _, rfl, rfl, rfl⟩)
    (fun _ _ => ⟨_, _, rfl, rfl, rfl⟩) (fun _ => rfl) fun _ => rfl

end Timer

/-! ### Both -/

/-- From reset, after any ticks and register accesses, the lines show the comparisons of 64-bit
numbers; the counters wrap around; and the halves of the counters and of the compare registers are
written and read one by one. -/
theorem timers_compare :
    (∀ is, (clintMachine.run {} is).Lines) ∧ (∀ is, (timerMachine.run {} is).Line) ∧
      (∀ c, (clintMachine.next c .tick).mtime.toNat = (c.mtime.toNat + 1) % 2 ^ 64) ∧
      (∀ t, (timerMachine.next t .tick).time.toNat = (t.time.toNat + 1) % 2 ^ 64) ∧
      WordPair Clint.mtime (fun c => (c.mtimecmp, c.msip, c.swIrq)) 0xBFF8 0xBFFC ∧
      WordPair Clint.mtimecmp (fun c => (c.mtime, c.msip, c.swIrq)) 0x4000 0x4004 ∧
      WordPair Timer.time (fun t => (t.cmp, t.ctrl)) 0x00 0x04 ∧
      WordPair Timer.cmp (fun t => (t.time, t.ctrl)) 0x08 0x0C :=
  ⟨Clint.lines_run, Timer.line_run, fun c => BitVec.toNat_add c.mtime 1,
    fun t => BitVec.toNat_add t.time 1, Clint.wordPair_mtime, Clint.wordPair_mtimecmp,
    Timer.wordPair_time, Timer.wordPair_cmp⟩

end VirtualSoC
