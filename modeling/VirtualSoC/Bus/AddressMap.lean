import Mathlib.Data.List.Induction
import VirtualSoC.Bus.TlmBus

/-!
# The address map of the bus

`TLM_Bus::map` of `bus/tlm_bus.cpp`, and what the bus makes of a sequence of calls of it.

A call that reports a fatal error does not return.  `std::sort` orders the ranges by base address
and leaves the order of equal bases open, so it is a parameter (`StdSort`).

## Main results

* `mapped_of_mapAll` : after the calls, the table holds one range for each call, with the number of
  the call as its target index, in some order;
* `disjoint_of_apart` : the overlap check, which computes in 32 bits, is right for ranges that end
  below `2 ^ 32`;
* `routed_iff` : the bus routes every address to the right target exactly if no range ends at
  `2 ^ 32`.
-/

namespace VirtualSoC

/-! ### Mapping -/

/-- The arguments of a call of `map`. -/
structure MapCall where
  base : Word
  size : Word
  deriving DecidableEq, Repr

/-- An implementation of `std::sort` on the ranges, compared by base address. -/
structure StdSort where
  sort : List MappedRange → List MappedRange
  perm (l : List MappedRange) : (sort l).Perm l
  sorted (l : List MappedRange) : (sort l).Pairwise fun a b => ¬ b.base < a.base

/-- The bus while its targets are mapped. -/
structure BusMap where
  bus : TlmBus := ⟨[]⟩
  nextTargetIdx : ℕ := 0

/-- The overlap check of a new range, with both ends in 32 bits. -/
def MappedRange.overlaps (r : MappedRange) (base size : Word) : Bool :=
  base < r.base + r.size ∧ r.base < base + size

namespace BusMap

variable (std : StdSort)

/-- `TLM_Bus::map`, `none` for the fatal report. -/
def map (m : BusMap) (base size : Word) : Option BusMap :=
  if m.bus.ranges.any (·.overlaps base size) then none
  else
    some {
      bus := ⟨std.sort (m.bus.ranges ++ [⟨base, size, m.nextTargetIdx⟩])⟩
      nextTargetIdx := m.nextTargetIdx + 1 }

/-- A sequence of calls on a new bus. -/
def mapAll (calls : List MapCall) : Option BusMap :=
  calls.foldlM (fun m c => m.map std c.base c.size) {}

end BusMap

/-! ### The table after the calls -/

namespace MapCall

/-- The table entry of a call. -/
def range (c : MapCall) (targetIdx : ℕ) : MappedRange := ⟨c.base, c.size, targetIdx⟩

/-- The address is in the interval from `base` to `base + size`. -/
def Contains (c : MapCall) (addr : ℕ) : Prop :=
  c.base.toNat ≤ addr ∧ addr < c.base.toNat + c.size.toNat

/-- The code does not see the two ranges overlap. -/
def Apart (c c' : MapCall) : Prop := ¬ (c.range 0).overlaps c'.base c'.size

/-- The intervals have no common address. -/
def Disjoint (c c' : MapCall) : Prop := ∀ addr, ¬ (c.Contains addr ∧ c'.Contains addr)

instance : DecidableRel Apart := fun _ _ => inferInstanceAs (Decidable (¬ _))

instance (c : MapCall) (addr : ℕ) : Decidable (c.Contains addr) :=
  inferInstanceAs (Decidable (_ ∧ _))

end MapCall

/-- The state of the bus after the calls. -/
structure Mapped (calls : List MapCall) (m : BusMap) : Prop where
  perm : m.bus.ranges.Perm (calls.mapIdx fun k c => c.range k)
  sorted : m.bus.ranges.Pairwise fun a b => ¬ b.base < a.base
  next : m.nextTargetIdx = calls.length
  apart : calls.Pairwise MapCall.Apart

variable {std : StdSort} {calls : List MapCall} {m : BusMap}

theorem mapAll_snoc (calls : List MapCall) (c : MapCall) :
    BusMap.mapAll std (calls ++ [c]) =
      (BusMap.mapAll std calls).bind fun m => m.map std c.base c.size := by
  simp [BusMap.mapAll, List.foldlM_append]

namespace Mapped

theorem mem_iff (h : Mapped calls m) {r : MappedRange} :
    r ∈ m.bus.ranges ↔ ∃ k, ∃ c : MapCall, calls[k]? = some c ∧ c.range k = r := by
  rw [h.perm.mem_iff, List.mem_mapIdx]
  constructor
  · rintro ⟨k, hk, hr⟩
    exact ⟨k, calls[k], List.getElem?_eq_getElem hk, hr⟩
  · rintro ⟨k, c, hc, hr⟩
    obtain ⟨hk, hck⟩ := List.getElem?_eq_some_iff.1 hc
    exact ⟨k, hk, by rw [hck, hr]⟩

theorem any_overlaps_iff (h : Mapped calls m) (c : MapCall) :
    m.bus.ranges.any (·.overlaps c.base c.size) = true ↔ ∃ c' ∈ calls, ¬ c'.Apart c := by
  simp only [List.any_eq_true, MapCall.Apart, not_not]
  constructor
  · rintro ⟨r, hr, ho⟩
    obtain ⟨k, c', hc', rfl⟩ := h.mem_iff.1 hr
    exact ⟨c', List.mem_of_getElem? hc', ho⟩
  · rintro ⟨c', hc', ho⟩
    obtain ⟨k, hk⟩ := List.getElem?_of_mem hc'
    exact ⟨c'.range k, h.mem_iff.2 ⟨k, c', hk, rfl⟩, ho⟩

variable (std) in
theorem map_eq_some_iff (h : Mapped calls m) (c : MapCall) :
    (∃ m', m.map std c.base c.size = some m') ↔ ∀ c' ∈ calls, c'.Apart c := by
  have hany := h.any_overlaps_iff c
  unfold BusMap.map
  by_cases ho : m.bus.ranges.any (·.overlaps c.base c.size) = true
  · rw [if_pos ho]
    obtain ⟨c', hc', hov⟩ := hany.1 ho
    exact iff_of_false nofun fun hall => hov (hall c' hc')
  · rw [if_neg ho]
    refine iff_of_true ⟨_, rfl⟩ fun c' hc' => ?_
    by_contra hov
    exact ho (hany.2 ⟨c', hc', hov⟩)

theorem snoc (h : Mapped calls m) {c : MapCall} {m' : BusMap}
    (hm : m.map std c.base c.size = some m') : Mapped (calls ++ [c]) m' := by
  have hall := (h.map_eq_some_iff std c).1 ⟨m', hm⟩
  unfold BusMap.map at hm
  split at hm
  · cases hm
  · cases hm
    refine ⟨(std.perm _).trans ?_, std.sorted _, by simp [h.next], ?_⟩
    · rw [List.mapIdx_concat, h.next]
      exact h.perm.append_right _
    · exact List.pairwise_append.2 ⟨h.apart, List.pairwise_singleton .., by simpa using hall⟩

end Mapped

theorem mapped_nil : Mapped [] {} := ⟨.refl _, .nil, rfl, .nil⟩

/-- After accepted calls the table holds one range for each of them. -/
theorem mapped_of_mapAll (h : BusMap.mapAll std calls = some m) : Mapped calls m := by
  induction calls using List.reverseRecOn generalizing m with
  | nil =>
    cases h
    exact mapped_nil
  | append_singleton calls c ih =>
    rw [mapAll_snoc] at h
    obtain ⟨m₀, hm₀, hm⟩ := Option.bind_eq_some_iff.1 h
    exact (ih hm₀).snoc hm

variable (std calls) in
/-- A sequence of calls is accepted if no two of its ranges overlap for the code. -/
theorem exists_mapAll_iff :
    (∃ m, BusMap.mapAll std calls = some m) ↔ calls.Pairwise MapCall.Apart := by
  refine ⟨fun ⟨m, h⟩ => (mapped_of_mapAll h).apart, ?_⟩
  induction calls using List.reverseRecOn with
  | nil => exact fun _ => ⟨_, rfl⟩
  | append_singleton calls c ih =>
    intro h
    obtain ⟨hcalls, -, hc⟩ := List.pairwise_append.1 h
    obtain ⟨m, hm⟩ := ih hcalls
    obtain ⟨m', hm'⟩ := ((mapped_of_mapAll hm).map_eq_some_iff std c).2
      fun c' hc' => hc c' hc' c List.mem_cons_self
    exact ⟨m', by rw [mapAll_snoc, hm, Option.bind_some, hm']⟩

/-! ### Ranges that end below the top -/

namespace MapCall

variable {c c' : MapCall}

/-- `base + size` does not wrap. -/
def NoWrap (c : MapCall) : Prop := c.base.toNat + c.size.toNat < 2 ^ 32

instance (c : MapCall) : Decidable c.NoWrap := inferInstanceAs (Decidable (_ < _))

theorem NoWrap.toNat_end (h : c.NoWrap) : (c.base + c.size).toNat = c.base.toNat + c.size.toNat := by
  rw [BitVec.toNat_add, Nat.mod_eq_of_lt h]

theorem apart_iff (h : c.NoWrap) (h' : c'.NoWrap) :
    c.Apart c' ↔ c.base.toNat + c.size.toNat ≤ c'.base.toNat ∨
      c'.base.toNat + c'.size.toNat ≤ c.base.toNat := by
  simp only [Apart, range, MappedRange.overlaps, decide_eq_true_eq, BitVec.lt_def, h.toNat_end,
    h'.toNat_end]
  omega

theorem disjoint_of_apart (h : c.NoWrap) (h' : c'.NoWrap) (ha : c.Apart c') : c.Disjoint c' := by
  rintro addr ⟨hc, hc'⟩
  have := (apart_iff h h').1 ha
  unfold Contains at hc hc'
  omega

theorem inRange_iff (h : c.NoWrap) (addr : Word) :
    (addr ≥ c.base ∧ addr < c.base + c.size) ↔ c.Contains addr.toNat := by
  rw [ge_iff_le, BitVec.le_def, BitVec.lt_def, h.toNat_end, Contains]

end MapCall

theorem TlmBus.inRange_of_decode {bus : TlmBus} {addr : Word} {r : MappedRange}
    (h : bus.decode addr = some r) : addr ≥ r.base ∧ addr < r.base + r.size := by
  rw [decode] at h
  have hr := List.find?_some h
  simpa using hr

section

variable (h : Mapped calls m) (hwrap : ∀ c ∈ calls, c.NoWrap)

include h hwrap

theorem Mapped.disjoint : calls.Pairwise MapCall.Disjoint :=
  h.apart.imp_of_mem fun hc hc' => MapCall.disjoint_of_apart (hwrap _ hc) (hwrap _ hc')

theorem Mapped.unique {j k : ℕ} {c c' : MapCall} {addr : ℕ} (hj : calls[j]? = some c')
    (hk : calls[k]? = some c) (hc' : c'.Contains addr) (hc : c.Contains addr) : j = k := by
  obtain ⟨hjl, rfl⟩ := List.getElem?_eq_some_iff.1 hj
  obtain ⟨hkl, rfl⟩ := List.getElem?_eq_some_iff.1 hk
  have hdisj := List.pairwise_iff_getElem.1 (h.disjoint hwrap)
  rcases Nat.lt_trichotomy j k with hlt | heq | hlt
  · exact absurd ⟨hc', hc⟩ (hdisj j k hjl hkl hlt addr)
  · exact heq
  · exact absurd ⟨hc, hc'⟩ (hdisj k j hkl hjl hlt addr)

theorem Mapped.decode_eq {k : ℕ} {c : MapCall} {addr : Word} (hk : calls[k]? = some c)
    (hc : c.Contains addr.toNat) : m.bus.decode addr = some (c.range k) := by
  have hin := (MapCall.inRange_iff (hwrap c (List.mem_of_getElem? hk)) addr).2 hc
  have hmem : c.range k ∈ m.bus.ranges := h.mem_iff.2 ⟨k, c, hk, rfl⟩
  cases hd : m.bus.decode addr with
  | none => exact absurd (decide_eq_true hin) (List.find?_eq_none.1 hd _ hmem)
  | some r =>
    -- another range that contains the address would be the range of the same call
    obtain ⟨j, c', hj, rfl⟩ := h.mem_iff.1 (List.mem_of_find?_eq_some hd)
    have hr := TlmBus.inRange_of_decode hd
    have hc' := (MapCall.inRange_iff (hwrap c' (List.mem_of_getElem? hj)) addr).1 hr
    obtain rfl := h.unique hwrap hj hk hc' hc
    rw [hj] at hk
    cases hk
    rfl

theorem Mapped.of_decode_eq {addr : Word} {r : MappedRange} (hd : m.bus.decode addr = some r) :
    ∃ k, ∃ c : MapCall, calls[k]? = some c ∧ c.range k = r ∧ c.Contains addr.toNat := by
  obtain ⟨k, c, hk, rfl⟩ := h.mem_iff.1 (List.mem_of_find?_eq_some hd)
  have hr := TlmBus.inRange_of_decode hd
  exact ⟨k, c, hk, rfl, (MapCall.inRange_iff (hwrap c (List.mem_of_getElem? hk)) addr).1 hr⟩

end

/-! ### Routing -/

section

variable {δ : Type*} [TlmDevice δ]

/-- The bus routes every address to the target of the call whose range contains it. -/
structure Routed (δ : Type*) [TlmDevice δ] (calls : List MapCall) (bus : TlmBus) : Prop where
  disjoint : calls.Pairwise MapCall.Disjoint
  found (addr : Word) : (∃ r, bus.decode addr = some r) ↔ ∃ c ∈ calls, c.Contains addr.toNat
  decode {k : ℕ} {c : MapCall} (hk : calls[k]? = some c) {addr : Word}
    (h : c.Contains addr.toNat) : bus.decode addr = some ⟨c.base, c.size, k⟩
  /-- The target sees the distance from the base, and the address is restored. -/
  transport {k : ℕ} {c : MapCall} (hk : calls[k]? = some c) {addr : Word}
    (h : c.Contains addr.toNat) {n : ℕ} (targets : ℕ → Target δ) (trans : Payload n)
    (ht : trans.address = addr.setWidth 64) :
    bus.bTransport targets trans =
      ((targets k).bTransport
        { trans with address := BitVec.ofNat 64 (addr.toNat - c.base.toNat) }).map fun x =>
          ({ x.1 with address := trans.address }, Function.update targets k x.2)

theorem MapCall.setWidth_sub {c : MapCall} {addr : Word} (h : c.Contains addr.toNat) :
    (addr - c.base).setWidth 64 = BitVec.ofNat 64 (addr.toNat - c.base.toNat) := by
  apply BitVec.eq_of_toNat_eq
  rw [BitVec.toNat_setWidth, BitVec.toNat_sub_of_le (BitVec.le_def.2 h.1), BitVec.toNat_ofNat]

theorem Mapped.routed (h : Mapped calls m) (hwrap : ∀ c ∈ calls, c.NoWrap) :
    Routed δ calls m.bus where
  disjoint := h.disjoint hwrap
  found addr := by
    constructor
    · rintro ⟨r, hr⟩
      obtain ⟨k, c, hk, -, hc⟩ := h.of_decode_eq hwrap hr
      exact ⟨c, List.mem_of_getElem? hk, hc⟩
    · rintro ⟨c, hmem, hc⟩
      obtain ⟨k, hk⟩ := List.getElem?_of_mem hmem
      exact ⟨_, h.decode_eq hwrap hk hc⟩
  decode hk _ hc := h.decode_eq hwrap hk hc
  transport {k c} hk {addr} hc {n} targets trans ht := by
    have haddr : (trans.address.setWidth 32 : Word) = addr := by
      rw [ht]
      exact BitVec.setWidth_setWidth_of_le addr (by decide)
    rw [TlmBus.bTransport, haddr, h.decode_eq hwrap hk hc]
    dsimp only [TlmBus.forward, MapCall.range]
    rw [haddr, MapCall.setWidth_sub hc, ht]
    exact (Option.map_eq_bind ..).symm

/-- A range that ends at the top of the address space is never found. -/
theorem not_found_of_top {base size : Word} (htop : base.toNat + size.toNat = 2 ^ 32)
    (addr : Word) : ¬ (addr ≥ base ∧ addr < base + size) := by
  rintro ⟨-, hlt⟩
  rw [BitVec.lt_def, BitVec.toNat_add, htop] at hlt
  omega

/-- **When the bus routes every address to the right target**: after accepted calls for ranges that
fit into the address space, exactly if none of them ends at its top. -/
theorem routed_iff (hm : BusMap.mapAll std calls = some m)
    (hcalls : ∀ c ∈ calls, 0 < c.size ∧ c.base.toNat + c.size.toNat ≤ 2 ^ 32) :
    Routed δ calls m.bus ↔ ∀ c ∈ calls, c.base.toNat + c.size.toNat ≠ 2 ^ 32 := by
  have h := mapped_of_mapAll hm
  constructor
  · intro hr c hmem htop
    obtain ⟨k, hk⟩ := List.getElem?_of_mem hmem
    have hlast : c.Contains (BitVec.ofNat 32 (2 ^ 32 - 1)).toNat := by
      rw [BitVec.toNat_ofNat, MapCall.Contains]
      omega
    exact not_found_of_top htop _ (TlmBus.inRange_of_decode (hr.decode hk hlast))
  · intro hne
    refine h.routed fun c hc => ?_
    have hle := (hcalls c hc).2
    have := hne c hc
    unfold MapCall.NoWrap
    omega

end

/-- A bus without devices. -/
instance : TlmDevice PEmpty where
  transport _ d := d.elim

/-! A bus with two targets, and one whose only target is the last page. -/

/-- A stable sort. -/
def StdSort.merge : StdSort where
  sort l := l.mergeSort fun a b => a.base ≤ b.base
  perm l := l.mergeSort_perm _
  sorted l := by
    refine (List.pairwise_mergeSort (fun a b c => ?_) (fun a b => ?_) l).imp fun h => ?_
    · simpa using BitVec.le_trans
    · simpa using BitVec.le_total a.base b.base
    · simpa [BitVec.not_lt] using h

theorem routed_iff_two : ∃ m, BusMap.mapAll .merge [⟨0x80000000, 0x1000⟩, ⟨0, 0x1000⟩] = some m ∧
    (Routed PEmpty [⟨0x80000000, 0x1000⟩, ⟨0, 0x1000⟩] m.bus ↔
      ∀ c ∈ [(⟨0x80000000, 0x1000⟩ : MapCall), ⟨0, 0x1000⟩],
        c.base.toNat + c.size.toNat ≠ 2 ^ 32) := by
  obtain ⟨m, hm⟩ := (exists_mapAll_iff .merge
    [⟨0x80000000, 0x1000⟩, ⟨0, 0x1000⟩]).2 (by decide)
  exact ⟨m, hm, routed_iff hm (by decide)⟩

/-- The last page of the address space is mapped, and no address in it is found. -/
theorem not_routed_last_page : ¬ ∀ (std : StdSort) (calls : List MapCall) (m : BusMap),
    BusMap.mapAll std calls = some m →
      (∀ c ∈ calls, 0 < c.size ∧ c.base.toNat + c.size.toNat ≤ 2 ^ 32) →
        Routed PEmpty calls m.bus := by
  intro h
  obtain ⟨m, hm⟩ := (exists_mapAll_iff .merge [⟨0xFFFFF000, 0x1000⟩]).2
    (List.pairwise_singleton ..)
  have hin : (⟨0xFFFFF000, 0x1000⟩ : MapCall).Contains (0xFFFFF000 : Word).toNat := by decide
  have hr := (h .merge _ m hm (by decide)).decode (k := 0) rfl hin
  have htop : (0xFFFFF000 : Word).toNat + (0x1000 : Word).toNat = 2 ^ 32 := by decide
  exact not_found_of_top htop _ (TlmBus.inRange_of_decode hr)

end VirtualSoC
