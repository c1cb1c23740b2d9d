import VirtualSoC.Bus.AddressMap
import VirtualSoC.Lib.FlatStore
import VirtualSoC.Lib.Machine

/-!
# The bus as a byte store

Memories behind the bus, used by any number of masters, form one flat byte store
(`bus_flat_store`).  A transaction is an input of `busMachine`, so an interleaving of the masters is
a list of transactions.  `Stored` connects the contents of the memories to the store; a transaction
keeps it (`stored_read`, `stored_write`, `refused`), and so does every run (`stored_run`).
-/

namespace VirtualSoC

/-! ### Transactions -/

/-- A read or a write of a master. -/
structure BusTransaction where
  /-- The socket of the master. -/
  id : ℕ
  isWrite : Bool
  addr : Word
  len : ℕ
  data : Vector Byte len
  len_pos : 0 < len
  len_le : len ≤ 512

/-- What the master gets back. -/
structure BusReply where
  response : TlmResponse
  data : List Byte
  deriving DecidableEq, Repr

namespace BusTransaction

variable (t : BusTransaction)

/-- The payload on the bus. -/
def payload : Payload t.len where
  command := if t.isWrite then .write else .read
  address := t.addr.setWidth 64
  data := t.data
  dataLength := BitVec.ofNat 32 t.len

/-- The write to the byte store. -/
def write : FlatStore.Write Byte := ⟨t.addr.toNat, t.len, t.data⟩

/-- All bytes of the transaction are in the range of the call. -/
def Inside (c : MapCall) : Prop :=
  c.base.toNat ≤ t.addr.toNat ∧ t.addr.toNat + t.len ≤ c.base.toNat + c.size.toNat

/-- All bytes of the transaction are in one mapped range. -/
def InsideOne (calls : List MapCall) : Prop := ∃ c ∈ calls, t.Inside c

end BusTransaction

variable {δ : Type*} [TlmDevice δ]

/-- The bus with its targets; no output when the program has undefined behaviour. -/
def busMachine (δ : Type*) [TlmDevice δ] (bus : TlmBus) :
    Machine (ℕ → Target δ) BusTransaction (Option BusReply) where
  step targets t :=
    match bus.bTransport targets t.payload with
    | none => (targets, none)
    | some x => (x.2, some ⟨x.1.response, x.1.data.toList⟩)

/-- The write of a step, when it is one and has been answered OK. -/
def acceptedWrite (bus : TlmBus) (targets : ℕ → Target δ) (t : BusTransaction) :
    Option (FlatStore.Write Byte) :=
  if t.isWrite ∧ ((busMachine δ bus).out targets t).map (·.response) = some .ok then some t.write
  else none

/-- A new memory for every call, of the size that it maps. -/
def newMemories (δ : Type*) (calls : List MapCall) (k : ℕ) : Target δ :=
  .memory (.new ((calls.map (·.size)).getD k 0))

/-- The memories hold the bytes of the store. -/
def Stored (calls : List MapCall) (store : ℕ → Byte) (targets : ℕ → Target δ) : Prop :=
  ∀ k c, calls[k]? = some c → ∃ m : Memory, targets k = .memory m ∧ m.size = c.size ∧
    ∀ i < c.size.toNat, m.mem[i]? = some (store (c.base.toNat + i))

omit [TlmDevice δ] in
theorem stored_new (calls : List MapCall) : Stored calls (fun _ => 0) (newMemories δ calls) := by
  intro k c hk
  have hsize : (calls.map (·.size)).getD k 0 = c.size := by simp [hk]
  refine ⟨.new c.size, by rw [newMemories, hsize], rfl, fun i hi => ?_⟩
  change (Vector.replicate c.size.toNat (0 : Byte))[i]? = some 0
  rw [Vector.getElem?_eq_getElem hi, Vector.getElem_replicate]

/-! ### One transaction -/

section

variable {calls : List MapCall} {m : BusMap} (h : Mapped calls m)
  (hwrap : ∀ c ∈ calls, c.NoWrap) (hsize : ∀ c ∈ calls, c.size.toNat ≤ 2 ^ 31)
  {store : ℕ → Byte} {targets : ℕ → Target δ} (hst : Stored calls store targets)
  (t : BusTransaction)

/-- The payload that the target of the call sees. -/
def BusTransaction.localPayload (c : MapCall) : Payload t.len :=
  { t.payload with address := BitVec.ofNat 64 (t.addr.toNat - c.base.toNat) }

theorem BusTransaction.toNat_dataLength (c : MapCall) :
    (t.localPayload c).dataLength.toNat = t.len := by
  have := t.len_le
  dsimp only [localPayload, payload]
  rw [BitVec.toNat_ofNat, Nat.mod_eq_of_lt (by omega)]

theorem BusTransaction.toNat_localAddress (c : MapCall) :
    ((t.localPayload c).address.setWidth 32 : Word).toNat = t.addr.toNat - c.base.toNat := by
  rw [localPayload, BitVec.toNat_setWidth, BitVec.toNat_ofNat]
  omega

include h hwrap

/-- A transaction whose first byte is in the range of a memory. -/
theorem bTransport_memory {k : ℕ} {c : MapCall} (hk : calls[k]? = some c)
    (hc : c.Contains t.addr.toNat) {mem : Memory} (ht : targets k = .memory mem) :
    m.bus.bTransport targets t.payload =
      (mem.bTransport (t.localPayload c)).map fun x =>
        ({ x.1 with address := t.payload.address },
          Function.update targets k (.memory x.2)) := by
  rw [(h.routed hwrap).transport hk hc targets t.payload rfl, ht]
  simp only [Target.bTransport, Option.map_map]
  rfl

include hst

theorem stored_read (hr : t.isWrite = false) {k : ℕ} {c : MapCall} (hk : calls[k]? = some c)
    (hc : t.Inside c) :
    (busMachine δ m.bus).step targets t =
      (targets, some ⟨.ok, List.ofFn fun i : Fin t.len => store (t.addr.toNat + i)⟩) := by
  obtain ⟨mem, ht, hms, hbytes⟩ := hst k c hk
  have hpos := t.len_pos
  obtain ⟨hlo, hhi⟩ := hc
  have hin : t.addr.toNat - c.base.toNat + t.len ≤ mem.size.toNat := by
    rw [hms]
    omega
  have hread := mem.bTransport_read (t.localPayload c) (by simp [BusTransaction.localPayload,
    BusTransaction.payload, hr]) (by rwa [t.toNat_localAddress, t.toNat_dataLength])
  obtain ⟨data, hcopy⟩ := Buffer.exists_copy (t.localPayload c).data mem.mem
    (show 0 + t.len ≤ t.len by omega) hin
  rw [t.toNat_localAddress, t.toNat_dataLength, hcopy, Option.map_some] at hread
  have htr := bTransport_memory h hwrap t hk ⟨hlo, by omega⟩ ht
  rw [hread, Option.map_some, ← ht, Function.update_eq_self] at htr
  have hdata : data.toList = List.ofFn fun i : Fin t.len => store (t.addr.toNat + i) := by
    refine List.ext_getElem? fun i => ?_
    rw [Vector.getElem?_toList, Buffer.getElem?_of_copy hcopy, List.getElem?_ofFn]
    by_cases hi : i < t.len
    · rw [if_pos (by omega), dif_pos hi, hbytes _ (by omega)]
      exact congrArg (some ∘ store) (by dsimp only; omega)
    · rw [if_neg (by omega), dif_neg hi, Vector.getElem?_eq_none (by omega)]
  rw [busMachine]
  dsimp only
  rw [htr, ← hdata]

omit [TlmDevice δ] in
/-- The bytes copied into one memory are those that the write puts into the store. -/
theorem Stored.write {k : ℕ} {c : MapCall} (hk : calls[k]? = some c) (hc : t.Inside c)
    {mem : Memory} (hms : mem.size = c.size)
    (hbytes : ∀ i < c.size.toNat, mem.mem[i]? = some (store (c.base.toNat + i)))
    {bytes : Vector Byte mem.size.toNat}
    (hcopy : Buffer.copy mem.mem (t.addr.toNat - c.base.toNat) t.data 0 t.len = some bytes) :
    Stored calls (t.write.apply store)
      (Function.update targets k (.memory { mem with mem := bytes })) := by
  obtain ⟨hlo, hhi⟩ := hc
  intro j c' hj
  by_cases hjk : j = k
  · subst hjk
    rw [hk] at hj
    cases hj
    refine ⟨_, Function.update_self .., hms, fun i hi => ?_⟩
    dsimp only
    rw [Buffer.getElem?_of_copy hcopy]
    by_cases hcov : t.write.Covers (c.base.toNat + i)
    · obtain ⟨hle, hlt⟩ := id hcov
      dsimp only [BusTransaction.write] at hle hlt
      rw [if_pos (by omega), ← FlatStore.Write.apply_of_covers hcov]
      exact congrArg (t.data[·]?) (by dsimp only [BusTransaction.write]; omega)
    · rw [FlatStore.Write.apply_of_not_covers hcov, ← hbytes i hi, if_neg]
      dsimp only [FlatStore.Write.Covers, BusTransaction.write] at hcov
      omega
  · obtain ⟨mem', ht', hms', hbytes'⟩ := hst j c' hj
    refine ⟨mem', by rw [Function.update_of_ne hjk, ht'], hms', fun i hi => ?_⟩
    -- the ranges are disjoint, so the write does not reach the other memory
    have hcov : ¬ t.write.Covers (c'.base.toNat + i) := by
      intro hcov
      dsimp only [FlatStore.Write.Covers, BusTransaction.write] at hcov
      have hc' : c'.Contains (c'.base.toNat + i) := ⟨by omega, by omega⟩
      exact hjk (h.unique hwrap hj hk hc' ⟨by omega, by omega⟩)
    rw [FlatStore.Write.apply_of_not_covers hcov, hbytes' i hi]

theorem stored_write (hw : t.isWrite = true) {k : ℕ} {c : MapCall} (hk : calls[k]? = some c)
    (hc : t.Inside c) :
    ∃ targets', (busMachine δ m.bus).step targets t =
      (targets', some ⟨.ok, t.data.toList⟩) ∧
        Stored calls (t.write.apply store) targets' := by
  obtain ⟨mem, ht, hms, hbytes⟩ := hst k c hk
  have hpos := t.len_pos
  obtain ⟨hlo, hhi⟩ := id hc
  have hin : t.addr.toNat - c.base.toNat + t.len ≤ mem.size.toNat := by
    rw [hms]
    omega
  have hwrite := mem.bTransport_write (t.localPayload c) (by simp [BusTransaction.localPayload,
    BusTransaction.payload, hw]) (by rwa [t.toNat_localAddress, t.toNat_dataLength])
  obtain ⟨bytes, hcopy⟩ := Buffer.exists_copy mem.mem (t.localPayload c).data hin
    (show 0 + t.len ≤ t.len by omega)
  rw [t.toNat_localAddress, t.toNat_dataLength, hcopy, Option.map_some] at hwrite
  have htr := bTransport_memory h hwrap t hk ⟨hlo, by omega⟩ ht
  rw [hwrite, Option.map_some] at htr
  refine ⟨_, ?_, hst.write h hwrap t hk hc hms hbytes hcopy⟩
  rw [busMachine]
  dsimp only
  rw [htr]
  rfl

include hsize

/-- A transaction that is not inside one memory is refused and has no effect. -/
theorem refused (hout : ¬ t.InsideOne calls) :
    ∃ data, (busMachine δ m.bus).step targets t = (targets, some ⟨.addressError, data⟩) := by
  have haddr : (t.payload.address.setWidth 32 : Word) = t.addr :=
    BitVec.setWidth_setWidth_of_le t.addr (by decide)
  cases hd : m.bus.decode t.addr with
  | none =>
    refine ⟨t.data.toList, ?_⟩
    have htr : m.bus.bTransport targets t.payload =
        some ({ t.payload with response := .addressError }, targets) := by
      rw [TlmBus.bTransport, haddr, hd]
    rw [busMachine]
    dsimp only
    rw [htr]
    rfl
  | some r =>
    obtain ⟨k, c, hk, -, hc⟩ := h.of_decode_eq hwrap hd
    obtain ⟨mem, ht, hms, -⟩ := hst k c hk
    have hle := t.len_le
    have hcs := hsize c (List.mem_of_getElem? hk)
    have hnot : ¬ t.Inside c := fun hin => hout ⟨c, List.mem_of_getElem? hk, hin⟩
    unfold BusTransaction.Inside at hnot
    obtain ⟨hlo, hhi⟩ := id hc
    have hover : mem.Overruns (t.localPayload c) := by
      refine Memory.overruns_of_lt ?_ ?_
      all_goals rw [t.toNat_localAddress, t.toNat_dataLength]
      · rw [hms]
        omega
      · omega
    have href := Memory.bTransport_of_overruns hover
    have htr := bTransport_memory h hwrap t hk hc ht
    rw [href, Option.map_some, ← ht, Function.update_eq_self] at htr
    refine ⟨t.data.toList, ?_⟩
    rw [busMachine]
    dsimp only
    rw [htr]
    rfl

/-! ### Runs -/

variable (δ) in
omit hst in
/-- After every run the memories hold what the accepted writes have put there. -/
theorem stored_run (hist : List BusTransaction) :
    Stored calls
      (FlatStore.lastWritten (fun _ => 0)
        ((busMachine δ m.bus).log (acceptedWrite m.bus) (newMemories δ calls) hist))
      ((busMachine δ m.bus).run (newMemories δ calls) hist) := by
  induction hist using List.reverseRecOn with
  | nil => exact stored_new calls
  | append_singleton hist t ih =>
    rw [Machine.run_snoc, Machine.log_snoc]
    by_cases hin : t.InsideOne calls
    · obtain ⟨c, hmem, hc⟩ := hin
      obtain ⟨k, hk⟩ := List.getElem?_of_mem hmem
      cases hw : t.isWrite with
      | false =>
        have hs := stored_read h hwrap ih t hw hk hc
        simp only [acceptedWrite, hw, Bool.false_eq_true, false_and, if_false, Option.toList_none,
          List.append_nil, Machine.next, hs]
        exact ih
      | true =>
        obtain ⟨targets', hs, hst'⟩ := stored_write h hwrap ih t hw hk hc
        simp only [acceptedWrite, hw, Machine.out, hs, Option.map_some, and_self, if_true,
          Option.toList_some, FlatStore.lastWritten_snoc, Machine.next]
        exact hst'
    · obtain ⟨data, hs⟩ := refused h hwrap hsize ih t hin
      simp only [acceptedWrite, Machine.out, hs, Option.map_some, Option.some.injEq, reduceCtorEq,
        and_false, if_false, Option.toList_none, List.append_nil, Machine.next]
      exact ih

end

/-- **The memories behind the bus form one flat byte store.**  After any transactions of any
masters, a transaction is answered OK if and only if all its bytes are in one mapped memory; a read
so answered returns the bytes last written; a transaction not so answered changes nothing. -/
theorem bus_flat_store (δ : Type*) [TlmDevice δ] {std : StdSort} {calls : List MapCall} {m : BusMap}
    (hm : BusMap.mapAll std calls = some m)
    (hcalls : ∀ c ∈ calls, c.size.toNat ≤ 2 ^ 31 ∧ ¬ BitVec.uaddOverflow c.base c.size)
    (hist : List BusTransaction) (t : BusTransaction) :
    let bus := busMachine δ m.bus
    let targets := bus.run (newMemories δ calls) hist
    ∃ reply, bus.out targets t = some reply ∧
      (reply.response = .ok ↔ t.InsideOne calls) ∧
      (t.InsideOne calls → t.isWrite = false → reply.data = List.ofFn fun i : Fin t.len =>
        FlatStore.lastWritten (fun _ => 0)
          (bus.log (acceptedWrite m.bus) (newMemories δ calls) hist) (t.addr.toNat + i)) ∧
      (¬ t.InsideOne calls → bus.next targets t = targets) := by
  intro bus targets
  have h := mapped_of_mapAll hm
  have hsize : ∀ c ∈ calls, c.size.toNat ≤ 2 ^ 31 := fun c hc => (hcalls c hc).1
  have hwrap : ∀ c ∈ calls, c.NoWrap := fun c hc => by
    simpa [BitVec.uaddOverflow, MapCall.NoWrap] using (hcalls c hc).2
  have hst := stored_run δ h hwrap hsize hist
  by_cases hin : t.InsideOne calls
  · obtain ⟨c, hmem, hc⟩ := id hin
    obtain ⟨k, hk⟩ := List.getElem?_of_mem hmem
    cases hw : t.isWrite with
    | false =>
      have hs := stored_read h hwrap hst t hw hk hc
      exact ⟨_, congrArg Prod.snd hs, iff_of_true rfl hin, fun _ _ => rfl, fun h => absurd hin h⟩
    | true =>
      obtain ⟨targets', hs, -⟩ := stored_write h hwrap hst t hw hk hc
      exact ⟨_, congrArg Prod.snd hs, iff_of_true rfl hin, fun _ h => Bool.noConfusion h,
        fun h => absurd hin h⟩
  · obtain ⟨data, hs⟩ := refused h hwrap hsize hst t hin
    refine ⟨_, congrArg Prod.snd hs, iff_of_false (by simp) hin, fun h => absurd h hin, fun _ => ?_⟩
    exact congrArg Prod.fst hs

/-! Two masters on a bus with two memories. -/

/-- A page and 256 bytes, mapped in the other order. -/
def twoMemories : List MapCall := [⟨0x80000000, 0x1000⟩, ⟨0, 0x100⟩]

theorem bus_flat_store_two : ∃ m reply, BusMap.mapAll .merge twoMemories = some m ∧
    (busMachine PEmpty m.bus).out
      ((busMachine PEmpty m.bus).run (newMemories PEmpty twoMemories)
        [⟨0, true, 0xFC, 4, .replicate 4 7, by decide, by decide⟩])
      ⟨1, false, 0x80000FFF, 1, .replicate 1 0, by decide, by decide⟩ = some reply ∧
    reply.response = .ok := by
  obtain ⟨m, hm⟩ := (exists_mapAll_iff .merge twoMemories).2 (by decide)
  obtain ⟨reply, hout, hok, -⟩ := bus_flat_store PEmpty hm (by decide)
    [⟨0, true, 0xFC, 4, .replicate 4 7, by decide, by decide⟩]
    ⟨1, false, 0x80000FFF, 1, .replicate 1 0, by decide, by decide⟩
  exact ⟨m, reply, hm, hout, hok.2 ⟨_, List.mem_cons_self, by decide, by decide⟩⟩

end VirtualSoC
