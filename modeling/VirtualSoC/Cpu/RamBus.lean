import VirtualSoC.Cpu.BusRel
import VirtualSoC.Cpu.MmuSpec

/-!
# Translation over a bus with RAM behind it

`RamAt` says that a physical bus has RAM at an interval of addresses: an access inside it reads or
writes the bytes of the RAM, and one that runs past its end reads 0 or does nothing.

When the page tables are in it, the MMU does over the bus what it does on plain RAM
(`RamAt.translate_ram`), so what `VirtualSoC.Cpu.MmuSpec` proves about RAM holds of the bus.
-/

namespace VirtualSoC

/-- RAM at the addresses from `lo` up to `hi`.  `View b m` tells that the world `b` is in order and
that `m` is the content of its RAM. -/
structure RamAt {β : Type*} (bus : PhysBus β) (lo hi : ℕ) (View : β → Ram → Prop) : Prop where
  read {b : β} {m : Ram} (h : View b m) {a : Word} {n : ℕ} (hn : 0 < n ∧ n ≤ 4)
    (hlo : lo ≤ a.toNat) (hhi : a.toNat + n ≤ hi) :
    (bus.read a n b).1 = Bytes.readLE m a n ∧ View (bus.read a n b).2 m
  readPast {b : β} {m : Ram} (h : View b m) {a : Word} {n : ℕ} (hn : 0 < n ∧ n ≤ 4)
    (hlo : lo ≤ a.toNat) (hlt : a.toNat < hi) (hhi : hi < a.toNat + n) :
    (bus.read a n b).1 = 0 ∧ View (bus.read a n b).2 m
  write {b : β} {m : Ram} (h : View b m) {a : Word} {n : ℕ} (hn : 0 < n ∧ n ≤ 4)
    (hlo : lo ≤ a.toNat) (hhi : a.toNat + n ≤ hi) (v : Word) :
    View (bus.write a v n b) (Bytes.writeLE m a v n)
  writePast {b : β} {m : Ram} (h : View b m) {a : Word} {n : ℕ} (hn : 0 < n ∧ n ≤ 4)
    (hlo : lo ≤ a.toNat) (hlt : a.toNat < hi) (hhi : hi < a.toNat + n) (v : Word) :
    View (bus.write a v n b) m

/-- A bus with RAM at every address. -/
def plainRam : PhysBus Ram where
  read a n m := (Bytes.readLE m a n, m)
  write a v n m := Bytes.writeLE m a v n
  dropDmi m := m

/-! ### Walks -/

section Walk

variable {β : Type*} {bus : PhysBus β} {lo hi : ℕ} {View : β → Ram → Prop}
  (hr : RamAt bus lo hi View) (pick : Tlb → ℕ) (vaddr : Word) (type : AccessType) (priv : Priv)
  (satp mstatus : Word) (tlb : Tlb)

/-- A word of the RAM. -/
def InRamWord (lo hi : ℕ) (a : Word) : Prop := lo ≤ a.toNat ∧ a.toNat + 4 ≤ hi

/-- The entries on the way to `vaddr` are in the RAM. -/
def TablesIn (lo hi : ℕ) (r : Ram) (satp vaddr : Word) : Prop :=
  ∀ x ∈ walkWords r (vaddr >>> pageShift) 1 (rootTable satp), InRamWord lo hi x

include hr

theorem RamAt.walkLeaf (level : ℕ) {addr pte : Word} (ha : InRamWord lo hi addr)
    (hp : ¬ (pte &&& pteR = 0 ∧ pte &&& pteW ≠ 0)) {b : β} {r : Ram} (hv : View b r) :
    Answers (Answers View)
      (walkLeaf bus.ptMem pick vaddr type priv mstatus level addr pte hp tlb b)
      (VirtualSoC.walkLeaf ramPt pick vaddr type priv mstatus level addr pte hp tlb r) := by
  unfold VirtualSoC.walkLeaf
  dsimp only
  split
  · exact ⟨rfl, rfl, hv⟩
  · split
    · exact ⟨rfl, rfl, hv⟩
    · split
      · exact ⟨rfl, rfl, hr.write hv ⟨by decide, by decide⟩ ha.1 ha.2 _⟩
      · exact ⟨rfl, rfl, hv⟩

/-- Over a bus the walk does what it does on plain RAM, if the tables are in the RAM. -/
theorem RamAt.walkFrom (level : ℕ) (a : Word) {b : β} {r : Ram} (hv : View b r)
    (htables : ∀ x ∈ walkWords r (vaddr >>> pageShift) level a, InRamWord lo hi x) :
    Answers (Answers View) (walkFrom bus.ptMem pick vaddr type priv mstatus level a tlb b)
      (VirtualSoC.walkFrom ramPt pick vaddr type priv mstatus level a tlb r) := by
  rw [walkWords.eq_def] at htables
  rw [VirtualSoC.walkFrom.eq_def, VirtualSoC.walkFrom.eq_def ramPt]
  dsimp only at htables ⊢
  rw [← vpn_eq] at htables
  have haddr := htables _ List.mem_cons_self
  obtain ⟨hval, hv'⟩ : (bus.ptMem.read (a + vpn vaddr level * 4) b).1 = pteAt r _ ∧
      View (bus.ptMem.read (a + vpn vaddr level * 4) b).2 r :=
    hr.read (n := 4) hv ⟨by decide, by decide⟩ haddr.1 haddr.2
  have hpt : ramPt.read (a + vpn vaddr level * 4) r =
      (pteAt r (a + vpn vaddr level * 4), r) := rfl
  rw [hpt, ← hval]
  rw [← hval] at htables
  generalize bus.ptMem.read (a + vpn vaddr level * 4) b = x at hv' htables ⊢
  obtain ⟨pte, b'⟩ := x
  dsimp only at hv' htables ⊢
  by_cases h1 : pte &&& pteV = 0
  · rw [if_pos h1, if_pos h1]
    exact ⟨rfl, rfl, hv'⟩
  rw [if_neg h1, if_neg h1]
  by_cases h2 : pte &&& pteR = 0 ∧ pte &&& pteW ≠ 0
  · rw [dif_pos h2, dif_pos h2]
    exact ⟨rfl, rfl, hv'⟩
  rw [dif_neg h2, dif_neg h2]
  by_cases hl : pte &&& (pteR ||| pteW ||| pteX) ≠ 0
  · rw [if_pos hl, if_pos hl]
    exact hr.walkLeaf pick vaddr type priv mstatus tlb level haddr h2 hv'
  rw [if_neg hl, if_neg hl]
  cases level with
  | zero => exact ⟨rfl, rfl, hv'⟩
  | succ level =>
    dsimp only at htables
    rw [if_neg (not_endsWalk h1 hl)] at htables
    exact RamAt.walkFrom level _ hv' fun x hx => htables x (List.mem_cons_of_mem _ hx)

theorem RamAt.walk {b : β} {r : Ram} (hv : View b r) (htables : TablesIn lo hi r satp vaddr) :
    Answers (Answers View) (walk bus.ptMem pick vaddr type priv satp mstatus tlb b)
      (VirtualSoC.walk ramPt pick vaddr type priv satp mstatus tlb r) :=
  hr.walkFrom pick vaddr type priv mstatus tlb 1 _ hv htables

/-- The MMU over the bus does what it does on plain RAM. -/
theorem RamAt.translate_ram {b : β} {r : Ram} (hv : View b r)
    (htables : TablesIn lo hi r satp vaddr) :
    Answers (Answers View) (translate bus.ptMem pick vaddr type priv satp mstatus tlb b)
      (translate ramPt pick vaddr type priv satp mstatus tlb r) := by
  unfold translate
  split
  · exact ⟨rfl, rfl, hv⟩
  · cases tlb.lookup (vaddr >>> pageShift) with
    | some e => exact ⟨rfl, rfl, hv⟩
    | none => exact hr.walk pick vaddr type priv satp mstatus tlb hv htables

end Walk

end VirtualSoC
