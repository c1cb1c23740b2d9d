import VirtualSoC.Cpu.Confinement
import VirtualSoC.Cpu.VirtualSpace

/-!
# User code is enclosed by its page tables

An `Enclosure` is what a kernel sets up around code that it does not trust: page tables in the RAM,
whose accessible pages are frames of the RAM and none of whose words is in a writable frame.

Whatever instructions a hart in user mode executes, legal or not, the RAM changes in the writable
frames only, and the tables in their A and D bits only (`Enclosure.keeps`), until a trap has taken
the hart out of user mode (`ISS.iterate_mode`).
-/

namespace VirtualSoC

/-! ### What a hart keeps -/

section Keeps

variable {β : Type*} {bus : PhysBus β} {c : HartMode} {I : Tlb → β → Prop} {e : Env β}
  {iss : ISS β} (pick : Tlb → ℕ)

/-- A property of the TLB and of the world behind the bus. -/
def Env.Holds (I : Tlb → β → Prop) (e : Env β) : Prop := I e.tlb e.bus

/-- Whatever a hart in the mode `c` does with its memory keeps `I`. -/
structure HartMode.Keeps (c : HartMode) (bus : PhysBus β) (I : Tlb → β → Prop) : Prop where
  flush {tlb : Tlb} {b : β} (h : I tlb b) : I flushTlb b
  dropDmi {tlb : Tlb} {b : β} (h : I tlb b) : I tlb (bus.dropDmi b)
  fetch (pick : Tlb → ℕ) {s : CPUState} {e : Env β} (hc : s.mode = c) (h : e.Holds I) :
    (VirtualSoC.fetch bus pick s e).2.Holds I
  read (pick : Tlb → ℕ) {s : CPUState} {e : Env β} {a : Word} {k : ℕ} (hc : s.mode = c)
    (hk : AlignedAccess a k) (h : e.Holds I) : (memRead bus pick s a k e).2.Holds I
  write (pick : Tlb → ℕ) {s : CPUState} {e : Env β} {a : Word} {k : ℕ} (v : Word)
    (hc : s.mode = c) (hk : AlignedAccess a k) (h : e.Holds I) :
    (memWrite bus pick s a v k e).Holds I

namespace HartMode.Keeps

variable (h : c.Keeps bus I)

include h

/-- An instruction does with the memory what its callbacks do. -/
theorem execute {s : CPUState} (hc : s.mode = c) (d : DecodedInstr) (he : e.Holds I) :
    (execute (issMemIf bus pick) s d e).mem.Holds I := by
  let P (t : CPUState) (a : Word) (k : ℕ) : Prop := t.mode = c ∧ AlignedAccess a k
  have hi : MemIf.Rel (fun e f : Env β => e = f ∧ e.Holds I) ((issMemIf bus pick).guard P P)
      ((issMemIf bus pick).guard P P) :=
    { read := by
        rintro e _ ⟨rfl, he⟩ t a k
        refine ⟨rfl, rfl, ?_⟩
        dsimp only [MemIf.guard]
        split
        next hp => exact h.read pick hp.1 hp.2 he
        · exact he
      write := by
        rintro e _ ⟨rfl, he⟩ t a v k
        refine ⟨rfl, ?_⟩
        dsimp only [MemIf.guard]
        split
        next hp => exact h.write pick v hp.1 hp.2 he
        · exact he
      onSatpWrite := by
        rintro e _ ⟨rfl, he⟩
        exact ⟨rfl, h.flush he⟩ }
  have hguard (t : CPUState) (k : ℕ) (hp : t.priv = s.priv) (hcsr : t.csr = s.csr)
      (ha : AlignedAccess (accessAddr s d) k) : P t (accessAddr s d) k := by
    refine ⟨?_, ha⟩
    rw [← hc, CPUState.mode, hp, hcsr, CPUState.mode]
  rw [← execute_guard (P := P) (Q := P) s d e fun _ _ t k hp hcsr ha =>
    ⟨fun _ => hguard t k hp hcsr ha, fun _ => hguard t k hp hcsr ha⟩]
  exact (execute_rel hi ⟨rfl, he⟩ s d).mem.2

theorem finish (hi : iss.env.Holds I) (r : ExecResult) : (ISS.finish bus iss r).env.Holds I := by
  have hbus : I iss.env.tlb (if r.fenceI then bus.dropDmi iss.env.bus else iss.env.bus) := by
    split
    · exact h.dropDmi hi
    · exact hi
  change I (if r.sfenceVma then flushTlb else iss.env.tlb) _
  split
  · exact h.flush hbus
  · exact hbus

theorem retire (hi : iss.env.Holds I) (r : ExecResult) (d : DecodedInstr) :
    (iss.retire bus r d).1.env.Holds I := by
  unfold ISS.retire
  dsimp only
  split
  · exact hi
  split
  · exact h.finish hi r
  split
  · exact hi
  · exact h.finish hi r

/-- **So does an iteration of the run loop**, whichever instruction it executes. -/
theorem iterate (hc : iss.state.mode = c) (hi : iss.env.Holds I) :
    (iss.iterate bus pick).1.env.Holds I := by
  cases hissue : iss.issue bus pick with
  | some x =>
    obtain ⟨d, e⟩ := x
    have he : e.Holds I := by
      have hf := h.fetch pick hc hi
      unfold ISS.issue at hissue
      split at hissue
      · cases hissue
      · split at hissue
        next heq =>
          cases hissue
          rw [heq] at hf
          exact hf
        · cases hissue
    have hx := h.execute pick (s := { iss.state with nextPc := iss.state.pc + d.instrLen }) hc d
      (e := { e with memFault := false }) he
    rw [(ISS.iterate_of_issue hissue).2]
    unfold ISS.stepInsn
    dsimp only
    split
    · exact hx
    · exact h.retire hx _ _
  | none =>
    unfold ISS.issue at hissue
    unfold ISS.iterate
    split
    · exact h.finish hi {}
    split
    · exact hi
    dsimp only
    split
    · exact hi
    split
    · exact hi
    have hf := h.fetch pick hc hi
    split
    next heq =>
      rw [heq] at hf
      exact hf
    next heq =>
      rw [if_neg (by tauto), heq] at hissue
      cases hissue

end HartMode.Keeps

end Keeps

/-! ### The mode -/

/-- User code has no way to change what its accesses depend on. -/
theorem Leaves.mode_prvU {σ : Type*} {s : CPUState} {d : DecodedInstr} {e : Executed σ}
    (h : Leaves s d e) (hs : s.priv = prvU) : e.cpu.mode = s.mode := by
  obtain ⟨hp, hc⟩ : e.cpu.priv = s.priv ∧ e.cpu.csr = s.csr := by
    have heff := h.effect
    generalize e.res.exception = x at heff
    cases heff with
    | seq hp hc hn | jump hp hc ht hn | jalr x hp hc hn => exact ⟨hp, hc⟩
    | csr addr v b hp hc hn =>
      rw [hs] at hc
      exact (CSRFile.write_prvU hc).elim
    | mret ht hM hp hc hn => exact absurd (by rw [hs]; decide) hM
    | sret ht hS hp hc hn => exact absurd (by rw [hs]; decide) hS
  rw [CPUState.mode, hp, hc, CPUState.mode]

/-- **A hart leaves user mode through a trap only.** -/
theorem ISS.iterate_mode {β : Type*} {bus : PhysBus β} {pick : Tlb → ℕ} {iss : ISS β}
    (hu : iss.state.priv = prvU) (htrap : (iss.iterate bus pick).2.trap = none) :
    (iss.iterate bus pick).1.state.mode = iss.state.mode := by
  cases hissue : iss.issue bus pick with
  | none =>
    have hidle := ISS.iterate_idle hissue
    generalize iss.iterate bus pick = x at hidle htrap
    cases hidle with
    | wake | halted => rfl
    | trap => cases htrap
  | some x =>
    obtain ⟨d, env⟩ := x
    rw [(ISS.iterate_of_issue hissue).2] at htrap ⊢
    have hmode := (execute_leaves (issMemIf bus pick)
      { iss.state with nextPc := iss.state.pc + d.instrLen } d
      { env with memFault := false }).mode_prvU hu
    unfold ISS.stepInsn at htrap ⊢
    dsimp only at htrap ⊢
    split at htrap
    · cases htrap
    next hf =>
      rw [if_neg hf]
      unfold ISS.retire at htrap ⊢
      dsimp only at htrap ⊢
      split at htrap
      next hb =>
        rw [if_pos hb]
        exact hmode
      next hb =>
        split at htrap
        · cases htrap
        next hx =>
          rw [if_neg hb, if_neg hx]
          split
          · exact hmode
          · exact hmode

/-! ### Enclosures -/

/-- The byte is in a writable frame. -/
def Writable (r₀ : Ram) (c : HartMode) (q : Word) : Prop := ∃ a, Maps r₀ c .store a q

/-- The byte is one of a page-table entry. -/
def InTables (r₀ : Ram) (c : HartMode) (q : Word) : Prop :=
  ∃ a, ∃ x ∈ tableWords r₀ c a, (q - x).toNat < 4

/-- What the page tables in `r₀` are, for code in the mode `c` and a RAM from `lo` up to `hi`: also
those of the pages that it cannot access. -/
structure Enclosure (r₀ : Ram) (c : HartMode) (lo hi : ℕ) : Prop where
  priv : c.priv = prvU
  sv32 : c.satp >>> satpModeShift ≠ satpModeBare
  frame {type : AccessType} {a p : Word} (h : Maps r₀ c type a p) : lo ≤ p.toNat ∧ p.toNat < hi
  tables (a : Word) : ∀ x ∈ tableWords r₀ c a, InRamWord lo hi x
  /-- No page-table entry is writable. -/
  apart {q : Word} (h : Writable r₀ c q) : ¬ InTables r₀ c q

/-- The RAM is as it was, but for the writable frames and the A and D bits of the tables, and the
TLB holds leaves of the tables. -/
structure Enclosed (r₀ : Ram) (c : HartMode) (tlb : Tlb) (r : Ram) : Prop where
  tables (a : Word) : ∀ x ∈ tableWords r₀ c a, PteEq (pteAt r x) (pteAt r₀ x)
  kept (q : Word) (hw : ¬ Writable r₀ c q) (ht : ¬ InTables r₀ c q) : r q = r₀ q
  cached : CachesLeaves r₀ c tlb

section Enclosed

variable {β : Type*} {bus : PhysBus β} {lo hi : ℕ} {View : β → Ram → Prop} {r₀ r r' : Ram}
  {c : HartMode} {tlb tlb' : Tlb} {type : AccessType} {a p : Word} {k : ℕ}

theorem Enclosed.marks (h : Enclosed r₀ c tlb r) (hmarks : Marks r₀ c type a r r')
    (hcached : CachesLeaves r₀ c tlb') : Enclosed r₀ c tlb' r' where
  tables b x hx := by
    have haligned := isAligned_of_mem_walkWords (isAligned_mul_pageSize _) hx
    exact (hmarks.pteEq haligned).trans (h.tables b x hx)
  kept q hw ht := by
    rw [hmarks.apart fun x hx => ?_, h.kept q hw ht]
    by_contra hlt
    exact ht ⟨a, x, hx, not_le.1 hlt⟩
  cached := hcached

theorem Enclosed.writeLE (h : Enclosed r₀ c tlb r) (hspace : Enclosure r₀ c lo hi)
    (ha : Maps r₀ c .store a p) (hk : 0 < k ∧ k ≤ 4) (hoff : a.toNat % 4096 + k ≤ 4096) (v : Word) :
    Enclosed r₀ c tlb (Bytes.writeLE r p v k) := by
  have hk32 : k ≤ 2 ^ 32 := by omega
  have hwritable (q : Word) (hq : (q - p).toNat < k) : Writable r₀ c q := by
    obtain ⟨hmaps, -⟩ := ha.add (k := (q - p).toNat) (by omega)
    rw [BitVec.ofNat_toNat, BitVec.setWidth_eq, add_sub_cancel] at hmaps
    exact ⟨_, hmaps⟩
  refine ⟨fun b x hx => ?_, fun q hw ht => ?_, h.cached⟩
  · have hfar (i : ℕ) (hi : i < 4) : k ≤ (x + BitVec.ofNat 32 i - p).toNat := by
      by_contra hlt
      refine hspace.apart (hwritable _ (not_le.1 hlt)) ⟨b, x, hx, ?_⟩
      rw [add_sub_cancel_left, BitVec.toNat_ofNat]
      omega
    unfold pteAt
    rw [Bytes.readLE_writeLE_of_disjoint hk32 hfar]
    exact h.tables b x hx
  · rw [Bytes.writeLE_apply hk32, if_neg fun hq => hw (hwritable q hq), h.kept q hw ht]

theorem maps_of_not_fault (h : ¬ (resolve a type c.priv c.satp c.mstatus r₀).fault) :
    Maps r₀ c type a (resolve a type c.priv c.satp c.mstatus r₀).paddr := by
  unfold Maps
  unfold resolve at h ⊢
  cases hl : findLeaf r₀ c.satp (a >>> pageShift) with
  | none =>
    rw [hl] at h
    exact absurd rfl h
  | some l =>
    rw [hl] at h
    dsimp only [Leaf.translate] at h ⊢
    split
    · rfl
    next hp =>
      rw [if_neg hp] at h
      exact absurd rfl h

theorem RamAt.readAny (hr : RamAt bus lo hi View) {b : β} (hv : View b r) {n : ℕ}
    (hn : 0 < n ∧ n ≤ 4) (hlo : lo ≤ a.toNat) (hlt : a.toNat < hi) : View (bus.read a n b).2 r := by
  by_cases hhi : a.toNat + n ≤ hi
  · exact (hr.read hv hn hlo hhi).2
  · exact (hr.readPast hv hn hlo hlt (not_le.1 hhi)).2

variable (hspace : Enclosure r₀ c lo hi) (hr : RamAt bus lo hi View)

include hspace hr

/-- A translation answers by the tables, and keeps the enclosure. -/
theorem Enclosure.translate (pick : Tlb → ℕ) (type : AccessType) (a : Word) {b : β} (hv : View b r)
    (h : Enclosed r₀ c tlb r) : ∃ tlb' b' r',
      VirtualSoC.translate bus.ptMem pick a type c.priv c.satp c.mstatus tlb b =
        (resolve a type c.priv c.satp c.mstatus r₀, tlb', b') ∧
      View b' r' ∧ Enclosed r₀ c tlb' r' := by
  obtain ⟨tlb', b', r', ht, hv', hmarks, hcached⟩ := hr.translate pick hspace.sv32
    (h.tables a) (hspace.tables a) h.cached hv
  exact ⟨tlb', b', r', ht, hv', h.marks hmarks hcached⟩

/-- A data access that is not refused goes to a frame of the tables. -/
theorem Enclosure.dataPaddr (pick : Tlb → ℕ) {s : CPUState} (hc : s.mode = c) {e : Env β}
    (h : e.Holds fun tlb b => ∃ r, View b r ∧ Enclosed r₀ c tlb r) (type : AccessType) (a : Word) :
    ((dataPaddr bus pick s a type e).2.Holds fun tlb b => ∃ r, View b r ∧ Enclosed r₀ c tlb r) ∧
      ∀ p ∈ (dataPaddr bus pick s a type e).1, Maps r₀ c type a p := by
  subst hc
  obtain ⟨r, hv, henc⟩ := h
  have hpriv : s.mode.priv < prvM := hspace.priv ▸ (by decide : prvU < prvM)
  obtain ⟨-, hactive, heff⟩ := CPUState.active_of_sv32 hpriv hspace.sv32
  obtain ⟨tlb, b, r', ht, hv', henc'⟩ := hspace.translate hr pick type a hv henc
  have hd : dataTranslate pick s a type e bus =
      (resolve a type s.priv s.csr.satp s.csr.mstatus r₀, tlb, b) := by
    rw [dataTranslate, heff]
    exact ht
  by_cases hf : (resolve a type s.priv s.csr.satp s.csr.mstatus r₀).fault
  · rw [dataPaddr_fault hactive (by rw [hd]; exact hf), hd]
    refine ⟨⟨r', hv', henc'⟩, ?_⟩
    intro p hp
    cases hp
  · rw [dataPaddr_ok hactive (by rw [hd]; exact hf), hd]
    refine ⟨⟨r', hv', henc'⟩, ?_⟩
    rintro p ⟨⟩
    exact maps_of_not_fault hf

/-- **User code keeps its enclosure**, whatever instructions it executes. -/
theorem Enclosure.keeps (hdrop : ∀ {b : β} {r : Ram}, View b r → View (bus.dropDmi b) r) :
    c.Keeps bus fun tlb b => ∃ r, View b r ∧ Enclosed r₀ c tlb r where
  flush := by
    rintro tlb b ⟨r, hv, h⟩
    exact ⟨r, hv, h.tables, h.kept, nofun⟩
  dropDmi := by
    rintro tlb b ⟨r, hv, h⟩
    exact ⟨r, hdrop hv, h⟩
  fetch := by
    rintro pick s e rfl ⟨r, hv, h⟩
    have hpriv : s.mode.priv < prvM := hspace.priv ▸ (by decide : prvU < prvM)
    obtain ⟨tlb, b, r', ht, hv', henc⟩ := hspace.translate hr pick .fetch s.pc hv h
    have ht : VirtualSoC.translate bus.ptMem pick s.pc .fetch s.priv s.csr.satp s.csr.mstatus e.tlb
        e.bus = (resolve s.pc .fetch s.priv s.csr.satp s.csr.mstatus r₀, tlb, b) := ht
    unfold VirtualSoC.fetch
    rw [if_pos (CPUState.active_of_sv32 hpriv hspace.sv32).1, ht]
    dsimp only
    split
    · exact ⟨r', hv', henc⟩
    next hf =>
      obtain ⟨hlo, hhi⟩ := hspace.frame (maps_of_not_fault (c := s.mode) hf)
      exact ⟨r', hr.readAny hv' (n := 4) ⟨by decide, by decide⟩ hlo hhi, henc⟩
  read := by
    rintro pick s e a k hc hk h
    obtain ⟨hk, hpage⟩ := hk.inPage
    obtain ⟨hd, hmaps⟩ := hspace.dataPaddr hr pick hc h .load a
    unfold memRead
    generalize VirtualSoC.dataPaddr bus pick s a .load e = x at hd hmaps ⊢
    obtain ⟨p | p, e'⟩ := x
    · exact hd
    · obtain ⟨r, hv, henc⟩ := hd
      obtain ⟨hlo, hhi⟩ := (hmaps p rfl).bounds hk hpage hspace.frame
      exact ⟨r, (hr.read hv hk hlo hhi).2, henc⟩
  write := by
    rintro pick s e a k v hc hk h
    obtain ⟨hk, hpage⟩ := hk.inPage
    obtain ⟨hd, hmaps⟩ := hspace.dataPaddr hr pick hc h .store a
    unfold memWrite
    generalize VirtualSoC.dataPaddr bus pick s a .store e = x at hd hmaps ⊢
    obtain ⟨p | p, e'⟩ := x
    · exact hd
    · obtain ⟨r, hv, henc⟩ := hd
      have ha := hmaps p rfl
      obtain ⟨hlo, hhi⟩ := ha.bounds hk hpage hspace.frame
      exact ⟨_, hr.write hv hk hlo hhi v, henc.writeLE hspace ha hk hpage v⟩

end Enclosed

end VirtualSoC
