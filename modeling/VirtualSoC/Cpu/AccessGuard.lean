import VirtualSoC.Cpu.Access
import VirtualSoC.Cpu.BusRel
import VirtualSoC.Cpu.FetchSpec
import VirtualSoC.Cpu.IssSpec

/-!
# Which accesses are made

An instruction calls its memory callbacks for `accessAddr` only, with one, two or four bytes at a
multiple of their number, and the callbacks see the privilege and the CSRs that it started with
(`execute_guard`).

So an iteration of the loop makes aligned accesses only, but for the fetch, which reads four bytes
at an even address (`ISS.busOps_aligned`).
-/

namespace VirtualSoC

/-- An access of one, two or four bytes at a multiple of their number. -/
def AlignedAccess (a : Word) (k : ℕ) : Prop := k = 1 ∨ k = 2 ∧ a &&& 1 = 0 ∨ k = 4 ∧ IsAligned a

/-! ### The callbacks of an instruction -/

/-- The instruction calls `read`. -/
def MemKind.reads : MemKind → Bool
  | .load | .lr | .amo => true
  | .store | .sc => false

/-- The instruction may call `write`. -/
def MemKind.writes : MemKind → Bool
  | .store | .sc | .amo => true
  | .load | .lr => false

section Guard

variable {σ : Type*} (mi : MemIf σ) (P Q : CPUState → Word → ℕ → Prop)

open Classical in
/-- The callbacks without the reads outside `P` and the writes outside `Q`. -/
noncomputable def MemIf.guard : MemIf σ where
  read s a k m := if P s a k then mi.read s a k m else (0, m)
  write s a v k m := if Q s a k then mi.write s a v k m else m
  onSatpWrite := mi.onSatpWrite

variable {mi P Q} {s : CPUState} {d : DecodedInstr} {m : σ} {addr : Word}

theorem guard_execLoad {align : Word} {bytes : ℕ} (ext : Word → Word)
    (h : addr &&& align = 0 → P s addr bytes) :
    execLoad (mi.guard P Q) s d m addr align bytes ext =
      execLoad mi s d m addr align bytes ext := by
  unfold execLoad
  split
  · rfl
  next ha =>
    dsimp only [MemIf.guard]
    rw [if_pos (h (not_not.1 ha))]

theorem guard_execStore {align data : Word} {bytes : ℕ} (h : addr &&& align = 0 → Q s addr bytes) :
    execStore (mi.guard P Q) s m addr align data bytes =
      execStore mi s m addr align data bytes := by
  unfold execStore
  split
  · rfl
  next ha =>
    dsimp only [MemIf.guard]
    rw [if_pos (h (not_not.1 ha))]

theorem guard_execLr (h : addr &&& 3 = 0 → P s addr 4) :
    execLr (mi.guard P Q) s d m addr = execLr mi s d m addr := by
  unfold execLr
  split
  · rfl
  next ha =>
    dsimp only [MemIf.guard]
    rw [if_pos (h (not_not.1 ha))]

theorem guard_execSc {v : Word} (h : addr &&& 3 = 0 → Q s addr 4) :
    execSc (mi.guard P Q) s d m addr v = execSc mi s d m addr v := by
  unfold execSc
  split
  · rfl
  next ha =>
    split
    · dsimp only [MemIf.guard]
      rw [if_pos (h (not_not.1 ha))]
    · rfl

theorem guard_execAmo {v : Word} (hr : addr &&& 3 = 0 → P s addr 4)
    (hw : ∀ t : CPUState, t.priv = s.priv → t.csr = s.csr → addr &&& 3 = 0 → Q t addr 4) :
    execAmo (mi.guard P Q) s d m addr v = execAmo mi s d m addr v := by
  unfold execAmo
  split
  · rfl
  next ha =>
    dsimp only [MemIf.guard]
    rw [if_pos (hr (not_not.1 ha)), if_pos (hw _ (by simp) (by simp) (not_not.1 ha))]

/-- **The accesses of an instruction.** -/
theorem execute_guard (s : CPUState) (d : DecodedInstr) (m : σ)
    (h : ∀ kind, d.type.memKind = some kind → ∀ (t : CPUState) (k : ℕ), t.priv = s.priv →
      t.csr = s.csr → AlignedAccess (accessAddr s d) k →
        (kind.reads → P t (accessAddr s d) k) ∧ (kind.writes → Q t (accessAddr s d) k)) :
    execute (mi.guard P Q) s d m = execute mi s d m := by
  have load (k : ℕ) (hk : d.type.memKind = some .load)
      (ha : AlignedAccess (s.getReg d.rs1 + d.imm) k) :
      P (s.falling d) (s.getReg d.rs1 + d.imm) k := by
    have haddr : accessAddr s d = s.getReg d.rs1 + d.imm := by rw [accessAddr, hk]
    rw [← haddr] at ha ⊢
    exact (h _ hk (s.falling d) k rfl rfl ha).1 rfl
  have store (k : ℕ) (hk : d.type.memKind = some .store)
      (ha : AlignedAccess (s.getReg d.rs1 + d.imm) k) :
      Q (s.falling d) (s.getReg d.rs1 + d.imm) k := by
    have haddr : accessAddr s d = s.getReg d.rs1 + d.imm := by rw [accessAddr, hk]
    rw [← haddr] at ha ⊢
    exact (h _ hk (s.falling d) k rfl rfl ha).2 rfl
  have atomic (t : CPUState) (hp : t.priv = s.priv) (hc : t.csr = s.csr) {k : MemKind}
      (hk : d.type.memKind = some k) (hne : k ≠ .load ∧ k ≠ .store)
      (ha : s.getReg d.rs1 &&& 3 = 0) : (k.reads → P t (s.getReg d.rs1) 4) ∧
        (k.writes → Q t (s.getReg d.rs1) 4) := by
    have haddr : accessAddr s d = s.getReg d.rs1 := by
      rw [accessAddr, hk]
      cases k with
      | load => exact absurd rfl hne.1
      | store => exact absurd rfl hne.2
      | _ => rfl
    rw [← haddr] at ha ⊢
    exact h k hk t 4 hp hc (.inr (.inr ⟨rfl, ha⟩))
  cases ht : d.type
  all_goals simp only [execute, ht]
  case lb | lbu =>
    exact guard_execLoad _ fun _ => load 1 (congrArg InstrType.memKind ht) (.inl rfl)
  case lh | lhu =>
    exact guard_execLoad _ fun ha =>
      load 2 (congrArg InstrType.memKind ht) (.inr (.inl ⟨rfl, ha⟩))
  case lw =>
    exact guard_execLoad _ fun ha =>
      load 4 (congrArg InstrType.memKind ht) (.inr (.inr ⟨rfl, ha⟩))
  case sb =>
    exact guard_execStore fun _ => store 1 (congrArg InstrType.memKind ht) (.inl rfl)
  case sh =>
    exact guard_execStore fun ha =>
      store 2 (congrArg InstrType.memKind ht) (.inr (.inl ⟨rfl, ha⟩))
  case sw =>
    exact guard_execStore fun ha =>
      store 4 (congrArg InstrType.memKind ht) (.inr (.inr ⟨rfl, ha⟩))
  case lrW =>
    exact guard_execLr fun ha =>
      (atomic (s.falling d) rfl rfl (congrArg InstrType.memKind ht) (by decide) ha).1 rfl
  case scW =>
    exact guard_execSc fun ha =>
      (atomic (s.falling d) rfl rfl (congrArg InstrType.memKind ht) (by decide) ha).2 rfl
  case amoswapW | amoaddW | amoxorW | amoandW | amoorW | amominW | amomaxW | amominuW | amomaxuW =>
    exact guard_execAmo
      (fun ha =>
        (atomic (s.falling d) rfl rfl (congrArg InstrType.memKind ht) (by decide) ha).1 rfl)
      fun t hp hc ha => (atomic t hp hc (congrArg InstrType.memKind ht) (by decide) ha).2 rfl
  all_goals rfl

end Guard

/-! ### The accesses of a translation -/

theorem leafPaddr_and (ppn : Word) (isSuperpage : Bool) (vaddr : Word) {c : Word}
    (hc : c &&& 0xFFF = c) : leafPaddr ppn isSuperpage vaddr &&& c = vaddr &&& c := by
  have hlow (x : Word) : x <<< pageShift &&& c = 0 := by
    have hpage : x <<< pageShift &&& 0xFFF = 0 := by
      refine (Bits.and_low_eq_zero_iff (k := 12) _ (by decide)).2 ?_
      rw [BitVec.toNat_shiftLeft, Nat.shiftLeft_eq]
      change 4096 ∣ x.toNat * 4096 % 4294967296
      omega
    rw [← hc, BitVec.and_comm c, ← BitVec.and_assoc, hpage]
    exact BitVec.zero_and
  have hmask {k : Word} (hk : k &&& 0xFFF = 0xFFF) : k &&& c = c := by
    rw [← hc, BitVec.and_comm c, ← BitVec.and_assoc, hk]
  unfold leafPaddr
  split
  all_goals rw [BitVec.or_comm, Bits.or_and_of_disjoint (hlow _)]
  · exact Bits.and_and_of_subset (hmask rfl)
  · exact Bits.and_and_of_subset (hmask rfl)

section Translate

variable {β : Type*} {pm : PtMem β} {P : β → Prop}
  (hread : ∀ a b, IsAligned a → P b → P (pm.read a b).2)
  (hwrite : ∀ a v b, IsAligned a → P b → P (pm.write a v b)) (pick : Tlb → ℕ) (vaddr : Word)
  (type : AccessType) (priv : Priv) (satp mstatus : Word) (tlb : Tlb)

include hread hwrite

/-- The walk reads and writes words at multiples of four. -/
theorem walkFrom_keeps (level : ℕ) {a : Word} (ha : IsAligned a) {b : β} (hb : P b) :
    P (walkFrom pm pick vaddr type priv mstatus level a tlb b).2.2 := by
  have haddr := ha.add (isAligned_mul_four (vpn vaddr level))
  have hb' := hread _ _ haddr hb
  rw [walkFrom.eq_def]
  dsimp only
  split
  · exact hb'
  split
  · exact hb'
  split
  · unfold walkLeaf
    dsimp only
    split
    · exact hb'
    split
    · exact hb'
    split
    · exact hwrite _ _ _ haddr hb'
    · exact hb'
  cases level with
  | zero => exact hb'
  | succ level => exact walkFrom_keeps level (isAligned_mul_pageSize _) hb'

theorem translate_keeps {b : β} (hb : P b) :
    P (translate pm pick vaddr type priv satp mstatus tlb b).2.2 := by
  unfold translate
  split
  · exact hb
  · cases tlb.lookup (vaddr >>> pageShift) with
    | some e => exact hb
    | none =>
      exact walkFrom_keeps hread hwrite pick vaddr type priv mstatus tlb 1
        (isAligned_mul_pageSize _) hb

end Translate

theorem translate_paddr_and {β : Type*} (pm : PtMem β) (pick : Tlb → ℕ) {vaddr : Word}
    {type : AccessType} {priv : Priv} {satp mstatus : Word} {tlb : Tlb} {b : β} {c : Word}
    (hc : c &&& 0xFFF = c) (h : ¬ (translate pm pick vaddr type priv satp mstatus tlb b).1.fault) :
    (translate pm pick vaddr type priv satp mstatus tlb b).1.paddr &&& c = vaddr &&& c := by
  by_cases hsv : satp >>> satpModeShift = satpModeBare
  · rw [translate, if_pos hsv]
  · obtain ⟨e, -, -, hr⟩ := cached_translate pm pick satp tlb hsv b h
    rw [hr]
    exact leafPaddr_and _ _ _ hc

/-! ### The accesses of an iteration -/

/-- The access is aligned, or may be a fetch. -/
def BusOp.Aligned : BusOp → Prop
  | .read a k => AlignedAccess a k ∨ k = 4 ∧ a &&& 1 = 0
  | .write a _ k => AlignedAccess a k
  | .dropDmi => True

/-- The aligned operations of the bus preserve `P`. -/
structure PhysBus.KeepsAligned {β : Type*} (bus : PhysBus β) (P : β → Prop) : Prop where
  op {b : β} (h : P b) {o : BusOp} (ho : o.Aligned) : P (o.apply bus b)

theorem AlignedAccess.congr {a a' : Word} {k : ℕ} (h : AlignedAccess a k)
    (ha : ∀ c : Word, c &&& 0xFFF = c → a' &&& c = a &&& c) : AlignedAccess a' k := by
  rcases h with hk | ⟨hk, h2⟩ | ⟨hk, h4⟩
  · exact .inl hk
  · exact .inr (.inl ⟨hk, (ha 1 rfl).trans h2⟩)
  · exact .inr (.inr ⟨hk, (ha 3 rfl).trans h4⟩)

namespace PhysBus.KeepsAligned

variable {β : Type*} {bus : PhysBus β} {P : β → Prop} (h : bus.KeepsAligned P) {b : β}
  (pick : Tlb → ℕ)

include h

theorem read (hb : P b) {a : Word} {k : ℕ} (ha : AlignedAccess a k) : P (bus.read a k b).2 :=
  h.op hb (o := .read a k) (.inl ha)

theorem readFetch (hb : P b) {a : Word} (ha : a &&& 1 = 0) : P (bus.read a 4 b).2 :=
  h.op hb (o := .read a 4) (.inr ⟨rfl, ha⟩)

theorem write (hb : P b) {a v : Word} {k : ℕ} (ha : AlignedAccess a k) : P (bus.write a v k b) :=
  h.op hb (o := .write a v k) ha

theorem translate (hb : P b) (vaddr : Word) (type : AccessType) (priv : Priv)
    (satp mstatus : Word) (tlb : Tlb) :
    P (translate bus.ptMem pick vaddr type priv satp mstatus tlb b).2.2 :=
  translate_keeps (P := P) (fun _ _ ha hb => h.read hb (.inr (.inr ⟨rfl, ha⟩)))
    (fun _ _ _ ha hb => h.write hb (.inr (.inr ⟨rfl, ha⟩))) pick vaddr type priv satp mstatus tlb hb

variable {e : Env β}

theorem dataPaddr (s : CPUState) (vaddr : Word) (type : AccessType) (he : P e.bus) :
    P (dataPaddr bus pick s vaddr type e).2.bus ∧
      ∀ p ∈ (dataPaddr bus pick s vaddr type e).1, ∀ k, AlignedAccess vaddr k →
        AlignedAccess p k := by
  have hpaddr (hf : ¬ (dataTranslate pick s vaddr type e bus).1.fault) (k : ℕ)
      (hk : AlignedAccess vaddr k) :
      AlignedAccess (dataTranslate pick s vaddr type e bus).1.paddr k :=
    hk.congr fun c hc => translate_paddr_and bus.ptMem pick hc hf
  have hb := h.translate pick he vaddr type s.effectiveDataPriv s.csr.satp s.csr.mstatus e.tlb
  refine dataPaddr_cases (P := fun x => P x.2.bus ∧ ∀ p ∈ x.1, ∀ k, AlignedAccess vaddr k →
    AlignedAccess p k) (fun _ => ⟨he, ?_⟩) (fun _ _ => ⟨hb, nofun⟩) fun _ hf => ⟨hb, ?_⟩
  · rintro p ⟨⟩ k hk
    exact hk
  · rintro p ⟨⟩ k hk
    exact hpaddr hf k hk

theorem memRead (s : CPUState) {vaddr : Word} {k : ℕ} (hk : AlignedAccess vaddr k)
    (he : P e.bus) : P (memRead bus pick s vaddr k e).2.bus := by
  obtain ⟨hb, hp⟩ := h.dataPaddr pick s vaddr .load he
  unfold VirtualSoC.memRead
  generalize VirtualSoC.dataPaddr bus pick s vaddr .load e = x at hb hp ⊢
  obtain ⟨p, e'⟩ := x
  cases p with
  | none => exact hb
  | some p => exact h.read hb (hp p rfl k hk)

theorem memWrite (s : CPUState) {vaddr : Word} (data : Word) {k : ℕ} (hk : AlignedAccess vaddr k)
    (he : P e.bus) : P (memWrite bus pick s vaddr data k e).bus := by
  obtain ⟨hb, hp⟩ := h.dataPaddr pick s vaddr .store he
  unfold VirtualSoC.memWrite
  generalize VirtualSoC.dataPaddr bus pick s vaddr .store e = x at hb hp ⊢
  obtain ⟨p, e'⟩ := x
  cases p with
  | none => exact hb
  | some p => exact h.write hb (hp p rfl k hk)

theorem execute (s : CPUState) (d : DecodedInstr) (he : P e.bus) :
    P (execute (issMemIf bus pick) s d e).mem.bus := by
  let A : CPUState → Word → ℕ → Prop := fun _ a k => AlignedAccess a k
  have hi : MemIf.Rel (fun e f : Env β => e = f ∧ P e.bus) ((issMemIf bus pick).guard A A)
      ((issMemIf bus pick).guard A A) :=
    { read := by
        rintro e _ ⟨rfl, he⟩ s a k
        refine ⟨rfl, rfl, ?_⟩
        dsimp only [MemIf.guard]
        split
        next hk => exact h.memRead pick s hk he
        · exact he
      write := by
        rintro e _ ⟨rfl, he⟩ s a v k
        refine ⟨rfl, ?_⟩
        dsimp only [MemIf.guard]
        split
        next hk => exact h.memWrite pick s v hk he
        · exact he
      onSatpWrite := by
        rintro e _ ⟨rfl, he⟩
        exact ⟨rfl, he⟩ }
  rw [← execute_guard (P := A) (Q := A) s d e fun _ _ _ _ _ _ hk => ⟨fun _ => hk, fun _ => hk⟩]
  exact (execute_rel hi ⟨rfl, he⟩ s d).mem.2

theorem fetch {s : CPUState} (hpc : s.pc &&& 1 = 0) (he : P e.bus) :
    P (fetch bus pick s e).2.bus := by
  unfold VirtualSoC.fetch
  split
  · have hb := h.translate pick he s.pc .fetch s.priv s.csr.satp s.csr.mstatus e.tlb
    have hpaddr (hf : ¬ (VirtualSoC.translate bus.ptMem pick s.pc .fetch s.priv s.csr.satp
        s.csr.mstatus e.tlb e.bus).1.fault) :=
      translate_paddr_and bus.ptMem pick (c := 1) rfl hf
    generalize VirtualSoC.translate bus.ptMem pick s.pc .fetch s.priv s.csr.satp s.csr.mstatus
      e.tlb e.bus = x at hb hpaddr ⊢
    obtain ⟨r, tlb, b⟩ := x
    dsimp only at hb hpaddr ⊢
    split
    · exact hb
    next hf => exact h.readFetch hb ((hpaddr hf).trans hpc)
  · exact h.readFetch he hpc

variable {iss : ISS β}

theorem finish (hi : P iss.env.bus) (r : ExecResult) : P (ISS.finish bus iss r).env.bus := by
  unfold ISS.finish
  dsimp only
  split
  · exact h.op hi (o := .dropDmi) trivial
  · exact hi

theorem retire (hi : P iss.env.bus) (r : ExecResult) (d : DecodedInstr) :
    P (iss.retire bus r d).1.env.bus := by
  unfold ISS.retire
  dsimp only
  split
  · exact hi
  split
  · exact h.finish hi r
  split
  · exact hi
  · exact h.finish hi r

/-- An iteration preserves what the aligned operations of the bus preserve. -/
theorem iterate (hi : P iss.env.bus) : P (iss.iterate bus pick).1.env.bus := by
  unfold ISS.iterate
  split
  · exact h.finish hi {}
  split
  · exact hi
  dsimp only
  split
  · exact hi
  split
  · exact hi
  next hpc =>
    have hf := h.fetch pick (not_not.1 hpc) hi
    generalize VirtualSoC.fetch bus pick iss.state iss.env = x at hf ⊢
    obtain ⟨r, e⟩ := x
    cases r with
    | error cause => exact hf
    | ok raw =>
      have hx := h.execute pick (e := { e with memFault := false })
        { iss.state with nextPc := iss.state.pc + (decode raw).instrLen } (decode raw) hf
      dsimp only [ISS.stepInsn]
      split
      · exact hx
      · exact h.retire hx _ _

end PhysBus.KeepsAligned

/-- **The accesses of an iteration are aligned**, but for the fetch, which reads four bytes at an
even address. -/
theorem ISS.busOps_aligned {β : Type*} (bus : PhysBus β) (pick : Tlb → ℕ) (iss : ISS β) :
    ∀ x ∈ iss.busOps bus pick, x.1.Aligned := by
  have hkeeps : bus.logged.KeepsAligned fun x => ∀ y ∈ x.2, y.1.Aligned :=
    { op := by
        rintro ⟨b, log⟩ hlog o ho
        have happend (y : BusOp × β) (hy : y ∈ log ++ [(o, b)]) : y.1.Aligned := by
          rcases List.mem_append.1 hy with hy | hy
          · exact hlog y hy
          · rw [List.mem_singleton.1 hy]
            exact ho
        cases o with
        | read => exact happend
        | write => exact happend
        | dropDmi => exact happend }
  exact hkeeps.iterate pick (show ∀ y ∈ ([] : List (BusOp × β)), y.1.Aligned from nofun)

end VirtualSoC
