import VirtualSoC.Cpu.Iss

/-!
# The ISS over related buses

The ISS uses its physical bus as a black box: over two buses that keep a relation between their
worlds and give equal answers, it does the same, and its worlds stay related (`iterate_rel`).

Two uses of this:

* a property that every bus operation preserves is preserved by the run loop (`Keeps.iterate`);
* recording the accesses does not change what an iteration does, so there is a list of them
  (`ISS.busOps`), and what every single one of them preserves the iteration preserves
  (`ISS.iterate_of_busOps`).
-/

namespace VirtualSoC

/-- Equal answers and related worlds. -/
def Answers {α β γ : Type*} (R : β → γ → Prop) (x : α × β) (y : α × γ) : Prop :=
  x.1 = y.1 ∧ R x.2 y.2

/-! ### `execute` -/

section Execute

variable {σ τ : Type*}

/-- Two memory interfaces that keep `R` and answer alike. -/
structure MemIf.Rel (R : σ → τ → Prop) (mi : MemIf σ) (mj : MemIf τ) : Prop where
  read {m : σ} {n : τ} (h : R m n) (s : CPUState) (a : Word) (k : ℕ) :
    Answers R (mi.read s a k m) (mj.read s a k n)
  write {m : σ} {n : τ} (h : R m n) (s : CPUState) (a v : Word) (k : ℕ) :
    R (mi.write s a v k m) (mj.write s a v k n)
  onSatpWrite {m : σ} {n : τ} (h : R m n) : R (mi.onSatpWrite m) (mj.onSatpWrite n)

/-- Equal results but for related memories. -/
structure Executed.Rel (R : σ → τ → Prop) (x : Executed σ) (y : Executed τ) : Prop where
  res : x.res = y.res
  cpu : x.cpu = y.cpu
  mem : R x.mem y.mem

variable {R : σ → τ → Prop} {mi : MemIf σ} {mj : MemIf τ} (hi : MemIf.Rel R mi mj) {m : σ}
  {n : τ} (h : R m n) (s : CPUState) (d : DecodedInstr)

include h

theorem done_rel : Executed.Rel R (done s m) (done s n) := ⟨rfl, rfl, h⟩

theorem makeException_rel (cause tval : Word) :
    Executed.Rel R (makeException cause tval s m) (makeException cause tval s n) := ⟨rfl, rfl, h⟩

theorem execMret_rel : Executed.Rel R (execMret s d m) (execMret s d n) := by
  unfold execMret
  split
  · exact makeException_rel h ..
  · exact done_rel h _

theorem execSret_rel : Executed.Rel R (execSret s d m) (execSret s d n) := by
  unfold execSret
  split
  · exact makeException_rel h ..
  · split
    · exact makeException_rel h ..
    · exact done_rel h _

theorem execSfenceVma_rel : Executed.Rel R (execSfenceVma s d m) (execSfenceVma s d n) := by
  unfold execSfenceVma
  split
  · exact makeException_rel h ..
  · split
    · exact makeException_rel h ..
    · exact ⟨rfl, rfl, h⟩

theorem execEcall_rel : Executed.Rel R (execEcall s m) (execEcall s n) := by
  unfold execEcall
  split
  · exact makeException_rel h ..
  · split
    · exact makeException_rel h ..
    · exact makeException_rel h ..

include hi

theorem execLoad_rel (addr align : Word) (bytes : ℕ) (ext : Word → Word) :
    Executed.Rel R (execLoad mi s d m addr align bytes ext)
      (execLoad mj s d n addr align bytes ext) := by
  unfold execLoad
  split
  · exact makeException_rel h ..
  · obtain ⟨hv, hm⟩ := hi.read h s addr bytes
    exact ⟨rfl, by dsimp only [done]; rw [hv], hm⟩

theorem execStore_rel (addr align data : Word) (bytes : ℕ) :
    Executed.Rel R (execStore mi s m addr align data bytes)
      (execStore mj s n addr align data bytes) := by
  unfold execStore
  split
  · exact makeException_rel h ..
  · exact done_rel (hi.write h s addr data bytes) _

theorem execLr_rel (addr : Word) :
    Executed.Rel R (execLr mi s d m addr) (execLr mj s d n addr) := by
  unfold execLr
  split
  · exact makeException_rel h ..
  · obtain ⟨hv, hm⟩ := hi.read h s addr 4
    exact ⟨rfl, by dsimp only [done]; rw [hv], hm⟩

theorem execSc_rel (addr rs2 : Word) :
    Executed.Rel R (execSc mi s d m addr rs2) (execSc mj s d n addr rs2) := by
  unfold execSc
  split
  · exact makeException_rel h ..
  · split
    · exact done_rel (hi.write h s addr rs2 4) _
    · exact done_rel h _

theorem execAmo_rel (addr rs2 : Word) :
    Executed.Rel R (execAmo mi s d m addr rs2) (execAmo mj s d n addr rs2) := by
  unfold execAmo
  split
  · exact makeException_rel h ..
  · obtain ⟨hv, hm⟩ := hi.read h s addr 4
    dsimp only
    rw [hv]
    exact done_rel (hi.write hm ..) _

theorem csrWrite_rel (v : Word) : Executed.Rel R (csrWrite mi s d m v) (csrWrite mj s d n v) := by
  unfold csrWrite
  cases s.csr.write (d.csr.setWidth 16) s.priv v with
  | none => exact makeException_rel h ..
  | some x =>
    obtain ⟨csr, satp⟩ := x
    cases satp with
    | false => exact done_rel h _
    | true => exact done_rel (hi.onSatpWrite h) _

theorem execCsrrw_rel (v : Word) :
    Executed.Rel R (execCsrrw mi s d m v) (execCsrrw mj s d n v) := by
  unfold execCsrrw
  split
  · cases s.csr.read (d.csr.setWidth 16) s.priv with
    | none => exact makeException_rel h ..
    | some old => exact csrWrite_rel hi h _ d v
  · exact csrWrite_rel hi h s d v

theorem execCsrrsc_rel (f : Word → Word) :
    Executed.Rel R (execCsrrsc mi s d m f) (execCsrrsc mj s d n f) := by
  unfold execCsrrsc
  cases s.csr.read (d.csr.setWidth 16) s.priv with
  | none => exact makeException_rel h ..
  | some old =>
    dsimp only
    split
    · exact csrWrite_rel hi h _ d _
    · exact done_rel h _

/-- `execute` uses its memory interface as a black box. -/
theorem execute_rel : Executed.Rel R (execute mi s d m) (execute mj s d n) := by
  cases ht : d.type
  all_goals simp only [execute, ht]
  case lb | lh | lw | lbu | lhu => exact execLoad_rel hi h ..
  case sb | sh | sw => exact execStore_rel hi h ..
  case lrW => exact execLr_rel hi h ..
  case scW => exact execSc_rel hi h ..
  case amoswapW | amoaddW | amoxorW | amoandW | amoorW | amominW | amomaxW | amominuW | amomaxuW =>
    exact execAmo_rel hi h ..
  case csrrw | csrrwi => exact execCsrrw_rel hi h ..
  case csrrs | csrrc | csrrsi | csrrci => exact execCsrrsc_rel hi h ..
  case ecall => exact execEcall_rel h _
  case mret => exact execMret_rel h ..
  case sret => exact execSret_rel h ..
  case sfenceVma => exact execSfenceVma_rel h ..
  case ebreak | uret | illegal => exact makeException_rel h ..
  case wfi | fencei => exact ⟨rfl, rfl, h⟩
  all_goals exact done_rel h _

end Execute

/-! ### The MMU -/

section Mmu

variable {β γ : Type*} {R : β → γ → Prop}

/-- Two page-table memories that keep `R` and answer alike. -/
structure PtMem.Rel (R : β → γ → Prop) (pm : PtMem β) (pn : PtMem γ) : Prop where
  read {b : β} {c : γ} (h : R b c) (a : Word) : Answers R (pm.read a b) (pn.read a c)
  write {b : β} {c : γ} (h : R b c) (a v : Word) : R (pm.write a v b) (pn.write a v c)

variable {pm : PtMem β} {pn : PtMem γ} (hp : PtMem.Rel R pm pn) (pick : Tlb → ℕ) (vaddr : Word)
  (type : AccessType) (priv : Priv) (satp mstatus : Word) (tlb : Tlb)

include hp

theorem walkLeaf_rel {b : β} {c : γ} (hR : R b c) (level : ℕ) (addr pte : Word)
    (hr : ¬ (pte &&& pteR = 0 ∧ pte &&& pteW ≠ 0)) :
    Answers (Answers R) (walkLeaf pm pick vaddr type priv mstatus level addr pte hr tlb b)
      (walkLeaf pn pick vaddr type priv mstatus level addr pte hr tlb c) := by
  unfold walkLeaf
  dsimp only
  split
  · exact ⟨rfl, rfl, hR⟩
  · split
    · exact ⟨rfl, rfl, hR⟩
    · split
      · exact ⟨rfl, rfl, hp.write hR ..⟩
      · exact ⟨rfl, rfl, hR⟩

theorem walkFrom_rel {b : β} {c : γ} (hR : R b c) (level : ℕ) (a : Word) :
    Answers (Answers R) (walkFrom pm pick vaddr type priv mstatus level a tlb b)
      (walkFrom pn pick vaddr type priv mstatus level a tlb c) := by
  rw [walkFrom.eq_def, walkFrom.eq_def pn]
  dsimp only
  obtain ⟨hv, hR'⟩ := hp.read hR (a + vpn vaddr level * 4)
  rw [← hv]
  generalize pm.read (a + vpn vaddr level * 4) b = x at hR' ⊢
  obtain ⟨pte, b'⟩ := x
  dsimp only at hR' ⊢
  by_cases h1 : pte &&& pteV = 0
  · rw [if_pos h1, if_pos h1]
    exact ⟨rfl, rfl, hR'⟩
  rw [if_neg h1, if_neg h1]
  by_cases h2 : pte &&& pteR = 0 ∧ pte &&& pteW ≠ 0
  · rw [dif_pos h2, dif_pos h2]
    exact ⟨rfl, rfl, hR'⟩
  rw [dif_neg h2, dif_neg h2]
  by_cases h3 : pte &&& (pteR ||| pteW ||| pteX) ≠ 0
  · rw [if_pos h3, if_pos h3]
    exact walkLeaf_rel hp pick vaddr type priv mstatus tlb hR' level _ pte h2
  rw [if_neg h3, if_neg h3]
  cases level with
  | zero => exact ⟨rfl, rfl, hR'⟩
  | succ level => exact walkFrom_rel hR' level _

theorem translate_rel {b : β} {c : γ} (hR : R b c) :
    Answers (Answers R) (translate pm pick vaddr type priv satp mstatus tlb b)
      (translate pn pick vaddr type priv satp mstatus tlb c) := by
  unfold translate
  split
  · exact ⟨rfl, rfl, hR⟩
  · cases tlb.lookup (vaddr >>> pageShift) with
    | some e => exact ⟨rfl, rfl, hR⟩
    | none => exact walkFrom_rel hp pick vaddr type priv mstatus tlb hR 1 _

end Mmu

/-! ### The callbacks of the ISS -/

section Callbacks

variable {β γ : Type*} {R : β → γ → Prop}

/-- Two physical buses that keep `R` and answer alike. -/
structure PhysBus.Rel (R : β → γ → Prop) (bus : PhysBus β) (bus' : PhysBus γ) : Prop where
  read {b : β} {c : γ} (h : R b c) (a : Word) (n : ℕ) :
    Answers R (bus.read a n b) (bus'.read a n c)
  write {b : β} {c : γ} (h : R b c) (a v : Word) (n : ℕ) :
    R (bus.write a v n b) (bus'.write a v n c)
  dropDmi {b : β} {c : γ} (h : R b c) : R (bus.dropDmi b) (bus'.dropDmi c)

/-- Equal environments but for related worlds. -/
inductive Env.Rel (R : β → γ → Prop) : Env β → Env γ → Prop
  | mk {tlb : Tlb} {f : Bool} {cause vaddr : Word} {b : β} {c : γ} (h : R b c) :
    Env.Rel R ⟨tlb, f, cause, vaddr, b⟩ ⟨tlb, f, cause, vaddr, c⟩

variable {bus : PhysBus β} {bus' : PhysBus γ} (hb : PhysBus.Rel R bus bus') (pick : Tlb → ℕ)
  (s : CPUState) {e : Env β} {e' : Env γ} (he : Env.Rel R e e')

theorem PhysBus.Rel.ptMem (hb : PhysBus.Rel R bus bus') : PtMem.Rel R bus.ptMem bus'.ptMem where
  read h a := hb.read h a 4
  write h a v := hb.write h a v 4

include hb he

theorem dataPaddr_rel (vaddr : Word) (type : AccessType) :
    Answers (Env.Rel R) (dataPaddr bus pick s vaddr type e)
      (dataPaddr bus' pick s vaddr type e') := by
  obtain @⟨tlb, _, _, _, b, c, hR⟩ := he
  unfold dataPaddr
  split
  · have ht := translate_rel hb.ptMem pick vaddr type s.effectiveDataPriv s.csr.satp s.csr.mstatus
      tlb hR
    dsimp only
    generalize translate bus.ptMem pick vaddr type s.effectiveDataPriv s.csr.satp s.csr.mstatus
      tlb b = x at ht ⊢
    generalize translate bus'.ptMem pick vaddr type s.effectiveDataPriv s.csr.satp s.csr.mstatus
      tlb c = y at ht ⊢
    obtain ⟨r, tlb, b⟩ := x
    obtain ⟨r', tlb', c⟩ := y
    obtain ⟨rfl : r = r', rfl : tlb = tlb', hR' : R b c⟩ := ht
    dsimp only
    split
    · exact ⟨rfl, ⟨hR'⟩⟩
    · exact ⟨rfl, ⟨hR'⟩⟩
  · exact ⟨rfl, ⟨hR⟩⟩

theorem memRead_rel (vaddr : Word) (n : ℕ) :
    Answers (Env.Rel R) (memRead bus pick s vaddr n e) (memRead bus' pick s vaddr n e') := by
  have hd := dataPaddr_rel hb pick s he vaddr .load
  unfold memRead
  generalize dataPaddr bus pick s vaddr .load e = x at hd ⊢
  generalize dataPaddr bus' pick s vaddr .load e' = y at hd ⊢
  obtain ⟨p, f⟩ := x
  obtain ⟨p', f'⟩ := y
  obtain ⟨rfl : p = p', hf : Env.Rel R f f'⟩ := hd
  cases p with
  | none => exact ⟨rfl, hf⟩
  | some p =>
    obtain ⟨hR⟩ := hf
    obtain ⟨hv, hR'⟩ := hb.read hR p n
    exact ⟨hv, ⟨hR'⟩⟩

theorem memWrite_rel (vaddr data : Word) (n : ℕ) :
    Env.Rel R (memWrite bus pick s vaddr data n e) (memWrite bus' pick s vaddr data n e') := by
  have hd := dataPaddr_rel hb pick s he vaddr .store
  unfold memWrite
  generalize dataPaddr bus pick s vaddr .store e = x at hd ⊢
  generalize dataPaddr bus' pick s vaddr .store e' = y at hd ⊢
  obtain ⟨p, f⟩ := x
  obtain ⟨p', f'⟩ := y
  obtain ⟨rfl : p = p', hf : Env.Rel R f f'⟩ := hd
  cases p with
  | none => exact hf
  | some p =>
    obtain ⟨hR⟩ := hf
    exact ⟨hb.write hR p data n⟩

omit he in
theorem issMemIf_rel : MemIf.Rel (Env.Rel R) (issMemIf bus pick) (issMemIf bus' pick) where
  read h s a k := memRead_rel hb pick s h a k
  write h s a v k := memWrite_rel hb pick s h a v k
  onSatpWrite := by
    rintro _ _ ⟨hR⟩
    exact ⟨hR⟩

theorem fetch_rel : Answers (Env.Rel R) (fetch bus pick s e) (fetch bus' pick s e') := by
  obtain @⟨tlb, _, _, _, b, c, hR⟩ := he
  unfold fetch
  split
  · have ht := translate_rel hb.ptMem pick s.pc .fetch s.priv s.csr.satp s.csr.mstatus tlb hR
    dsimp only
    generalize translate bus.ptMem pick s.pc .fetch s.priv s.csr.satp s.csr.mstatus
      tlb b = x at ht ⊢
    generalize translate bus'.ptMem pick s.pc .fetch s.priv s.csr.satp s.csr.mstatus
      tlb c = y at ht ⊢
    obtain ⟨r, tlb, b⟩ := x
    obtain ⟨r', tlb', c⟩ := y
    obtain ⟨rfl : r = r', rfl : tlb = tlb', hR' : R b c⟩ := ht
    dsimp only
    split
    · exact ⟨rfl, ⟨hR'⟩⟩
    · obtain ⟨hv, hR''⟩ := hb.read hR' r.paddr 4
      exact ⟨congrArg Except.ok hv, ⟨hR''⟩⟩
  · obtain ⟨hv, hR'⟩ := hb.read hR s.pc 4
    exact ⟨congrArg Except.ok hv, ⟨hR'⟩⟩

end Callbacks

/-! ### The run loop -/

namespace ISS

variable {β γ : Type*} {R : β → γ → Prop}

/-- Equal ISS states but for related worlds. -/
inductive Rel (R : β → γ → Prop) : ISS β → ISS γ → Prop
  | mk {s : CPUState} {e : Env β} {e' : Env γ} {halted single stop wfi : Bool} {n : BitVec 64}
    (he : Env.Rel R e e') :
    Rel R ⟨s, e, halted, single, stop, n, wfi⟩ ⟨s, e', halted, single, stop, n, wfi⟩

variable {bus : PhysBus β} {bus' : PhysBus γ} (hb : PhysBus.Rel R bus bus') (pick : Tlb → ℕ)
  {iss : ISS β} {iss' : ISS γ} (hi : Rel R iss iss')

include hi

theorem enterTrap_rel (cause tval : Word) :
    Rel R (iss.enterTrap cause tval) (iss'.enterTrap cause tval) := by
  obtain ⟨he⟩ := hi
  exact ⟨he⟩

include hb

theorem finish_rel (r : ExecResult) : Rel R (finish bus iss r) (finish bus' iss' r) := by
  obtain ⟨⟨hR⟩⟩ := hi
  unfold finish
  cases r.fenceI with
  | false => exact ⟨⟨hR⟩⟩
  | true => exact ⟨⟨hb.dropDmi hR⟩⟩

theorem retire_rel (r : ExecResult) (d : DecodedInstr) :
    Rel R (retire bus iss r d).1 (retire bus' iss' r d).1 ∧
      (retire bus iss r d).2 = (retire bus' iss' r d).2 := by
  obtain ⟨he⟩ := hi
  unfold retire
  dsimp only
  split
  · exact ⟨⟨he⟩, rfl⟩
  · split
    · exact ⟨finish_rel hb ⟨he⟩ r, rfl⟩
    · split
      · exact ⟨⟨he⟩, rfl⟩
      · exact ⟨finish_rel hb ⟨he⟩ r, rfl⟩

theorem stepInsn_rel (d : DecodedInstr) :
    Rel R (stepInsn bus pick iss d).1 (stepInsn bus' pick iss' d).1 ∧
      (stepInsn bus pick iss d).2 = (stepInsn bus' pick iss' d).2 := by
  obtain @⟨s, e, e', _, _, _, _, _, he⟩ := hi
  have he' : Env.Rel R { e with memFault := false } { e' with memFault := false } := by
    obtain ⟨hR⟩ := he
    exact ⟨hR⟩
  have hx := execute_rel (issMemIf_rel hb pick) he' { s with nextPc := s.pc + d.instrLen } d
  unfold stepInsn
  dsimp only
  generalize execute (issMemIf bus pick) _ d _ = x at hx ⊢
  generalize execute (issMemIf bus' pick) _ d _ = y at hx ⊢
  obtain ⟨r, cpu, m⟩ := x
  obtain ⟨r', cpu', m'⟩ := y
  obtain ⟨rfl : r = r', rfl : cpu = cpu', hm : Env.Rel R m m'⟩ := hx
  obtain ⟨hR⟩ := hm
  dsimp only
  split
  · exact ⟨⟨⟨hR⟩⟩, rfl⟩
  · exact retire_rel hb ⟨⟨hR⟩⟩ r d

/-- **The ISS uses its bus as a black box.** -/
theorem iterate_rel :
    Rel R (iss.iterate bus pick).1 (iss'.iterate bus' pick).1 ∧
      (iss.iterate bus pick).2 = (iss'.iterate bus' pick).2 := by
  obtain @⟨s, e, e', _, _, _, _, _, he⟩ := hi
  unfold iterate
  dsimp only
  split
  · exact ⟨finish_rel hb ⟨he⟩ {}, rfl⟩
  split
  · exact ⟨⟨he⟩, rfl⟩
  split
  · exact ⟨enterTrap_rel ⟨he⟩ _ _, rfl⟩
  split
  · exact ⟨enterTrap_rel ⟨he⟩ _ _, rfl⟩
  have hf := fetch_rel hb pick s he
  generalize fetch bus pick s e = x at hf ⊢
  generalize fetch bus' pick s e' = y at hf ⊢
  obtain ⟨w, f⟩ := x
  obtain ⟨w', f'⟩ := y
  obtain ⟨rfl : w = w', hf : Env.Rel R f f'⟩ := hf
  cases w with
  | error cause => exact ⟨enterTrap_rel ⟨hf⟩ _ _, rfl⟩
  | ok raw => exact stepInsn_rel hb pick ⟨hf⟩ (decode raw)

end ISS

/-! ### Properties that every bus operation keeps -/

section Keeps

variable {β : Type*} {P : β → Prop} {bus : PhysBus β}

/-- Every operation of the bus preserves `P`. -/
structure PhysBus.Keeps (bus : PhysBus β) (P : β → Prop) : Prop where
  read {b : β} (h : P b) (a : Word) (n : ℕ) : P (bus.read a n b).2
  write {b : β} (h : P b) (a v : Word) (n : ℕ) : P (bus.write a v n b)
  dropDmi {b : β} (h : P b) : P (bus.dropDmi b)

theorem PhysBus.Keeps.rel (h : bus.Keeps P) :
    PhysBus.Rel (fun b c => b = c ∧ P b) bus bus where
  read := by
    rintro b _ ⟨rfl, hP⟩ a n
    exact ⟨rfl, rfl, h.read hP a n⟩
  write := by
    rintro b _ ⟨rfl, hP⟩ a v n
    exact ⟨rfl, h.write hP a v n⟩
  dropDmi := by
    rintro b _ ⟨rfl, hP⟩
    exact ⟨rfl, h.dropDmi hP⟩

/-- An iteration preserves what every bus operation preserves. -/
theorem PhysBus.Keeps.iterate (h : bus.Keeps P) (pick : Tlb → ℕ) {iss : ISS β}
    (hP : P iss.env.bus) : P (iss.iterate bus pick).1.env.bus := by
  have hi : ISS.Rel (fun b c => b = c ∧ P b) iss iss := ⟨⟨rfl, hP⟩⟩
  obtain ⟨hr, -⟩ := ISS.iterate_rel h.rel pick hi
  generalize (iss.iterate bus pick).1 = x at hr ⊢
  obtain ⟨⟨-, hP'⟩⟩ := hr
  exact hP'

/-- Along a run, if what happens elsewhere preserves it too. -/
theorem PhysBus.Keeps.run (h : bus.Keeps P) {iss : ISS β} {is : List (Input β)}
    (hP : P iss.env.bus)
    (hw : ∀ f, Input.world f ∈ is → ∀ b, P b → P (f b)) :
    P ((issMachine bus).run iss is).env.bus := by
  induction is using List.reverseRecOn with
  | nil => exact hP
  | append_singleton is i ih =>
    rw [Machine.run_snoc]
    have hP' := ih fun f hf => hw f (List.mem_append_left _ hf)
    cases i with
    | cycle pick => exact h.iterate pick hP'
    | world f => exact hw f (by simp) _ hP'
    | line | halt | resume | step => exact hP'

end Keeps

/-! ### The accesses of an iteration -/

/-- One operation of the bus. -/
inductive BusOp
  | read (addr : Word) (bytes : ℕ)
  | write (addr data : Word) (bytes : ℕ)
  | dropDmi
  deriving DecidableEq, Repr

/-- The world after an operation. -/
def BusOp.apply {β : Type*} (bus : PhysBus β) (b : β) : BusOp → β
  | read a n => (bus.read a n b).2
  | write a v n => bus.write a v n b
  | dropDmi => bus.dropDmi b

section Accesses

variable {β : Type*} (bus : PhysBus β)

/-- The bus with a record of its operations, each with the world that it found. -/
def PhysBus.logged : PhysBus (β × List (BusOp × β)) where
  read a n x := ((bus.read a n x.1).1, (bus.read a n x.1).2, x.2 ++ [(.read a n, x.1)])
  write a v n x := (bus.write a v n x.1, x.2 ++ [(.write a v n, x.1)])
  dropDmi x := (bus.dropDmi x.1, x.2 ++ [(.dropDmi, x.1)])

theorem PhysBus.logged_rel : PhysBus.Rel (fun x b => x.1 = b) bus.logged bus where
  read := by
    rintro x _ rfl a n
    exact ⟨rfl, rfl⟩
  write := by
    rintro x _ rfl a v n
    rfl
  dropDmi := by
    rintro x _ rfl
    rfl

namespace ISS

variable (pick : Tlb → ℕ) (iss : ISS β)

/-- The ISS over the recording bus, before its first operation. -/
def logged : ISS (β × List (BusOp × β)) where
  state := iss.state
  env :=
    { tlb := iss.env.tlb
      memFault := iss.env.memFault
      memFaultCause := iss.env.memFaultCause
      memFaultVaddr := iss.env.memFaultVaddr
      bus := (iss.env.bus, []) }
  halted := iss.halted
  singleStep := iss.singleStep
  stopOnEbreak := iss.stopOnEbreak
  insnCount := iss.insnCount
  inWfi := iss.inWfi

/-- The bus operations of an iteration, in order, each with the world that it found. -/
def busOps : List (BusOp × β) := (iss.logged.iterate bus.logged pick).1.env.bus.2

variable {bus pick iss}

theorem logged_iterate :
    (iss.logged.iterate bus.logged pick).1.env.bus.1 = (iss.iterate bus pick).1.env.bus ∧
      (iss.logged.iterate bus.logged pick).2 = (iss.iterate bus pick).2 := by
  have hi : Rel (fun x b => x.1 = b) iss.logged iss := ⟨⟨rfl⟩⟩
  obtain ⟨hr, he⟩ := iterate_rel bus.logged_rel pick hi
  refine ⟨?_, he⟩
  generalize (iss.logged.iterate bus.logged pick).1 = x at hr ⊢
  generalize (iss.iterate bus pick).1 = y at hr ⊢
  obtain ⟨⟨h⟩⟩ := hr
  exact h

/-- What each single operation of an iteration preserves, the iteration preserves. -/
theorem iterate_of_busOps {P : β → Prop} (hP : P iss.env.bus)
    (h : ∀ x ∈ iss.busOps bus pick, P x.2 → P (x.1.apply bus x.2)) :
    P (iss.iterate bus pick).1.env.bus := by
  -- the operations recorded so far preserve `P`, so it holds now
  have hk : bus.logged.Keeps fun x => (∀ y ∈ x.2, P y.2 → P (y.1.apply bus y.2)) → P x.1 :=
    { read := fun hx a n hall =>
        hall (.read a n, _) List.mem_concat_self
          (hx fun y hy => hall y (List.mem_append_left _ hy))
      write := fun hx a v n hall =>
        hall (.write a v n, _) List.mem_concat_self
          (hx fun y hy => hall y (List.mem_append_left _ hy))
      dropDmi := fun hx hall =>
        hall (.dropDmi, _) List.mem_concat_self
          (hx fun y hy => hall y (List.mem_append_left _ hy)) }
  rw [← logged_iterate.1]
  exact hk.iterate pick (fun _ => hP) h

end ISS

end Accesses

end VirtualSoC
