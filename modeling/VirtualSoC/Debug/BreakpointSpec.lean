import VirtualSoC.Debug.GdbServer
import VirtualSoC.Lib.UndoLog
import VirtualSoC.Platform.RamPort

/-!
# Breakpoints and the program

A breakpoint saves and overwrites four bytes, and compressed code has breakpoints two bytes apart.
The saved bytes form an undo log (`Undoable`): restored in the reverse order of the insertions they
give back the program.  A removal that is out of turn with respect to an overlapping breakpoint
breaks the log, and the program is not restored (`not_breakpoints_restored`).

## Main results

* `undoable_insert`, `undoable_remove` : the steps that keep the log;
* `breakpoints_restored` : in every run whose removals are in turn, memory is as it was before the
  first insertion once no breakpoint is left.
-/

namespace VirtualSoC

/-! ### The server as a machine -/

/-- What a breakpoint packet asks for. -/
inductive BpCommand
  | insert (addr : Word)
  | remove (addr : Word)
  deriving DecidableEq, Repr

namespace BpCommand

/-- The address of a command. -/
def addr : BpCommand → Word
  | insert a => a
  | remove a => a

/-- The address of a packet. -/
def parseAddr (data : List Char) : Option Word :=
  (bpField data).bind fun field => (Stoul.stoul16 field).map (·.setWidth 32)

/-- The command of a `Z0` or `z0` packet. -/
def parse : List Char → Option BpCommand
  | 'Z' :: '0' :: data => (parseAddr ('0' :: data)).map insert
  | 'z' :: '0' :: data => (parseAddr ('0' :: data)).map remove
  | _ => none

/-- The effect of a command. -/
def apply {β : Type*} (bus : PhysBus β) : BpCommand → GDBServer × β → GDBServer × β
  | insert a => GDBServer.insertBp bus a
  | remove a => GDBServer.removeBp bus a

end BpCommand

/-- The server as it handles breakpoint packets; the output is the reply. -/
def gdbMachine {β : Type*} (bus : PhysBus β) :
    Machine (GDBServer × β) (List Char) (Option String) where
  step s pkt :=
    match GDBServer.handleBp bus pkt s with
    | none => (s, none)
    | some (reply, s) => (s, some reply)

section

variable {β : Type*} (bus : PhysBus β)

theorem withBpAddr_of_parseAddr {data : List Char} {a : Word}
    (h : BpCommand.parseAddr data = some a) (act : Word → GDBServer × β → GDBServer × β)
    (s : GDBServer × β) : GDBServer.withBpAddr act data s = some ("OK", act a s) := by
  obtain ⟨field, hfield, h⟩ := Option.bind_eq_some_iff.1 h
  obtain ⟨v, hv, rfl⟩ := Option.map_eq_some_iff.1 h
  rw [GDBServer.withBpAddr, hfield]
  dsimp only
  rw [hv, Option.map_some]

/-- A packet that parses has the effect of its command, and is answered OK. -/
theorem gdbMachine_step {pkt : List Char} {cmd : BpCommand} (h : BpCommand.parse pkt = some cmd)
    (s : GDBServer × β) : (gdbMachine bus).step s pkt = (cmd.apply bus s, some "OK") := by
  have hpkt : GDBServer.handleBp bus pkt s = some ("OK", cmd.apply bus s) := by
    unfold BpCommand.parse at h
    split at h
    · obtain ⟨a, ha, rfl⟩ := Option.map_eq_some_iff.1 h
      exact withBpAddr_of_parseAddr ha _ s
    · obtain ⟨a, ha, rfl⟩ := Option.map_eq_some_iff.1 h
      exact withBpAddr_of_parseAddr ha _ s
    · cases h
  rw [gdbMachine]
  dsimp only
  rw [hpkt]

theorem gdbMachine_run {packets : List (List Char)} {cmds : List BpCommand}
    (h : packets.map BpCommand.parse = cmds.map some) (s : GDBServer × β) :
    (gdbMachine bus).run s packets = cmds.foldl (fun s cmd => cmd.apply bus s) s := by
  induction packets generalizing cmds s with
  | nil =>
    obtain rfl : cmds = [] := by simpa using h.symm
    rfl
  | cons pkt packets ih =>
    cases cmds with
    | nil => cases h
    | cons cmd cmds =>
      simp only [List.map_cons, List.cons.injEq] at h
      have hnext : (gdbMachine bus).next s pkt = cmd.apply bus s :=
        congrArg Prod.fst (gdbMachine_step bus h.1 s)
      rw [Machine.run, hnext]
      exact ih h.2 _

end

/-! ### Commands in turn -/

/-- The present breakpoints, the newest first. -/
def liveMachine : Machine (List Word) BpCommand Unit where
  step live
    | .insert a => (if a ∈ live then live else a :: live, ())
    | .remove a => (live.erase a, ())

/-- The breakpoints at `a` and `b` overlap, and memory below `hi` has all their bytes. -/
def Clash (hi : ℕ) (a b : Word) : Prop :=
  a.toNat + 4 ≤ hi ∧ b.toNat + 4 ≤ hi ∧ a.toNat < b.toNat + 4 ∧ b.toNat < a.toNat + 4

instance (hi : ℕ) (a b : Word) : Decidable (Clash hi a b) :=
  inferInstanceAs (Decidable (_ ∧ _))

/-- The command removes no breakpoint that overlaps one inserted after it. -/
def InTurn (hi : ℕ) (live : List Word) : BpCommand → Prop
  | .insert _ => True
  | .remove a => a ∈ live → ∀ b ∈ live.takeWhile (· ≠ a), ¬ Clash hi a b

instance (hi : ℕ) (live : List Word) (cmd : BpCommand) : Decidable (InTurn hi live cmd) :=
  match cmd with
  | .insert _ => isTrue trivial
  | .remove a =>
    have : Decidable (∀ b ∈ live.takeWhile (· ≠ a), ¬ Clash hi a b) := List.decidableBAll _ _
    inferInstanceAs (Decidable (a ∈ live → _))

theorem mem_takeWhile_ne {l l' : List Word} {a b : Word} (ha : a ∉ l) (hb : b ∈ l) :
    b ∈ (l ++ a :: l').takeWhile (· ≠ a) := by
  have hall : ∀ x ∈ l, decide (x ≠ a) = true := fun x hx => decide_eq_true fun h => ha (h ▸ hx)
  rw [List.takeWhile_append_of_pos hall]
  exact List.mem_append_left _ hb

/-! ### The undo log -/

/-- Write the saved bytes back; the bus refuses the access at the end of the memory. -/
def restoreBp (hi : ℕ) (e : Word × Word) (m : Ram) : Ram :=
  if e.1.toNat + 4 ≤ hi then Bytes.writeLE m e.1 e.2 4 else m

theorem restoreBp_comm {hi : ℕ} (hhi : hi ≤ 2 ^ 32) {e e' : Word × Word}
    (h : ¬ Clash hi e.1 e'.1) : Function.Commute (restoreBp hi e') (restoreBp hi e) := by
  intro m
  unfold restoreBp
  by_cases he : e.1.toNat + 4 ≤ hi
  · by_cases he' : e'.1.toNat + 4 ≤ hi
    · simp only [he, he', if_true]
      refine Bytes.writeLE_comm (by decide) (by decide) (fun p hp => h ⟨he, he', ?_⟩) e.2 e'.2
      obtain ⟨h₁, h₂⟩ := hp
      rw [BitVec.toNat_sub] at h₁ h₂
      omega
    · simp only [he', if_false]
  · simp only [he, if_false]

section

variable {β : Type*} {bus : PhysBus β} {lo hi : ℕ} {View : β → Ram → Prop}
  (hram : RamAt bus lo hi View)

/-- The breakpoints in `live`, the newest first, can be undone to the memory `m₀`. -/
structure Undoable (hi : ℕ) (View : β → Ram → Prop) (m₀ : Ram) (live : List Word)
    (s : GDBServer × β) (log : List (Word × Word)) (m : Ram) : Prop where
  view : View s.2 m
  live_eq : log.map Prod.fst = live
  nodup : live.Nodup
  saved (a v : Word) : s.1.breakpoints a = some v ↔ (a, v) ∈ log
  undo : UndoLog.undo (restoreBp hi) log m = m₀

variable {m₀ m : Ram} {live : List Word} {s : GDBServer × β} {log : List (Word × Word)} {a : Word}

theorem Undoable.mem_live_iff (h : Undoable hi View m₀ live s log m) :
    a ∈ live ↔ ∃ v, s.1.breakpoints a = some v := by
  rw [← h.live_eq, List.mem_map]
  constructor
  · rintro ⟨⟨_, v⟩, hmem, rfl⟩
    exact ⟨v, (h.saved _ v).2 hmem⟩
  · rintro ⟨v, hv⟩
    exact ⟨(a, v), (h.saved a v).1 hv, rfl⟩

include hram

theorem insertBp_new {b : β} {g : GDBServer} (hb : View b m) (hlo : lo ≤ a.toNat)
    (hlt : a.toNat < hi) (hnew : g.breakpoints a = none) :
    ∃ v b' m', GDBServer.insertBp bus a (g, b) =
        ({ breakpoints := Function.update g.breakpoints a (some v) }, b') ∧
      View b' m' ∧ restoreBp hi (a, v) m' = m ∧
      (a.toNat + 4 ≤ hi → v = Bytes.readLE m a 4 ∧ m' = Bytes.writeLE m a ebreakInsn 4) := by
  have hins : GDBServer.insertBp bus a (g, b) =
      ({ breakpoints := Function.update g.breakpoints a (some (bus.read a 4 b).1) },
        bus.write a ebreakInsn 4 (bus.read a 4 b).2) := by
    simp only [GDBServer.insertBp, hnew]
  by_cases hin : a.toNat + 4 ≤ hi
  · obtain ⟨hval, hview⟩ := hram.read hb (by decide) hlo hin
    refine ⟨_, _, _, hins, hram.write hview (by decide) hlo hin ebreakInsn, ?_,
      fun _ => ⟨hval, rfl⟩⟩
    rw [restoreBp, if_pos hin, hval]
    exact Bytes.writeLE_readLE (by decide) (by decide) a ebreakInsn
  · obtain ⟨-, hview⟩ := hram.readPast hb (by decide) hlo hlt (Nat.lt_of_not_le hin)
    refine ⟨_, _, m, hins,
      hram.writePast hview (by decide) hlo hlt (Nat.lt_of_not_le hin) ebreakInsn, ?_,
      fun h => absurd h hin⟩
    rw [restoreBp, if_neg hin]

/-- Removing a breakpoint writes back what it has saved. -/
theorem removeBp_present {b : β} {g : GDBServer} {v : Word} (hb : View b m) (hlo : lo ≤ a.toNat)
    (hlt : a.toNat < hi) (hv : g.breakpoints a = some v) :
    ∃ b', GDBServer.removeBp bus a (g, b) =
        ({ breakpoints := Function.update g.breakpoints a none }, b') ∧
      View b' (restoreBp hi (a, v) m) := by
  refine ⟨bus.write a v 4 b, by simp only [GDBServer.removeBp, hv], ?_⟩
  unfold restoreBp
  by_cases hin : a.toNat + 4 ≤ hi
  · rw [if_pos hin]
    exact hram.write hb (by decide) hlo hin v
  · rw [if_neg hin]
    exact hram.writePast hb (by decide) hlo hlt (Nat.lt_of_not_le hin) v

variable (h : Undoable hi View m₀ live s log m) (hlo : lo ≤ a.toNat) (hlt : a.toNat < hi)

include h hlo hlt

theorem undoable_insert : ∃ log' m',
    Undoable hi View m₀ (liveMachine.next live (.insert a)) (GDBServer.insertBp bus a s) log' m' := by
  obtain ⟨g, b⟩ := s
  by_cases hmem : a ∈ live
  · obtain ⟨v, hv⟩ := h.mem_live_iff.1 hmem
    have hsame : GDBServer.insertBp bus a (g, b) = (g, b) := by
      dsimp only at hv
      simp only [GDBServer.insertBp, hv]
    have hlive : liveMachine.next live (.insert a) = live := if_pos hmem
    rw [hsame, hlive]
    exact ⟨log, m, h⟩
  · have hnone : g.breakpoints a = none := by
      by_contra hne
      exact hmem (h.mem_live_iff.2 (Option.ne_none_iff_exists'.1 hne))
    obtain ⟨v, b', m', hins, hview, hundo, -⟩ := insertBp_new hram h.view hlo hlt hnone
    have hlive : liveMachine.next live (.insert a) = a :: live := if_neg hmem
    rw [hins, hlive]
    refine ⟨(a, v) :: log, m', hview, by rw [List.map_cons, h.live_eq],
      List.nodup_cons.2 ⟨hmem, h.nodup⟩, fun a' v' => ?_, ?_⟩
    · by_cases ha : a' = a
      · subst ha
        have hnot : (a', v') ∉ log := fun hm => by
          have hv' : g.breakpoints a' = some v' := (h.saved a' v').2 hm
          rw [hnone] at hv'
          cases hv'
        simp [hnot, eq_comm]
      · simp [ha, ← h.saved a' v']
    · rw [UndoLog.undo, hundo, h.undo]

theorem undoable_remove (hhi : hi ≤ 2 ^ 32) (hturn : InTurn hi live (.remove a)) : ∃ log' m',
    Undoable hi View m₀ (liveMachine.next live (.remove a)) (GDBServer.removeBp bus a s) log' m' := by
  obtain ⟨g, b⟩ := s
  by_cases hmem : a ∈ live
  · obtain ⟨v, hv⟩ := h.mem_live_iff.1 hmem
    dsimp only at hv
    obtain ⟨b', hrem, hview⟩ := removeBp_present hram h.view hlo hlt hv
    obtain ⟨newer, older, hlog⟩ := List.append_of_mem ((h.saved a v).1 hv)
    have hlive : live = newer.map Prod.fst ++ a :: older.map Prod.fst := by
      rw [← h.live_eq, hlog, List.map_append, List.map_cons]
    have hnodup := h.nodup
    rw [hlive, List.nodup_middle] at hnodup
    obtain ⟨hnot, hrest⟩ := List.nodup_cons.1 hnodup
    have hnewer : a ∉ newer.map Prod.fst := fun hm => hnot (List.mem_append_left _ hm)
    -- the breakpoints inserted after this one are those before it in the log
    have hcomm : ∀ e' ∈ newer, Function.Commute (restoreBp hi e') (restoreBp hi (a, v)) := by
      intro e' he'
      have htake : e'.1 ∈ live.takeWhile (· ≠ a) := by
        rw [hlive]
        exact mem_takeWhile_ne hnewer (List.mem_map_of_mem he')
      exact restoreBp_comm hhi (hturn hmem e'.1 htake)
    have herase : liveMachine.next live (.remove a) =
        newer.map Prod.fst ++ older.map Prod.fst := by
      change live.erase a = _
      rw [hlive, List.erase_append_right _ hnewer, List.erase_cons_head]
    rw [hrem, herase]
    refine ⟨newer ++ older, _, hview, List.map_append, hrest, fun a' v' => ?_, ?_⟩
    · have hsaved := h.saved a' v'
      rw [hlog] at hsaved
      by_cases ha : a' = a
      · subst ha
        have hno : (a', v') ∉ newer ++ older := fun hm => hnot
          (List.map_append ▸ List.mem_map_of_mem (f := Prod.fst) hm)
        simpa using hno
      · dsimp only at hsaved ⊢
        rw [Function.update_of_ne ha, hsaved]
        simp [ha]
    · rw [UndoLog.undo_remove older hcomm, ← hlog, h.undo]
  · have hnone : g.breakpoints a = none := by
      by_contra hne
      exact hmem (h.mem_live_iff.2 (Option.ne_none_iff_exists'.1 hne))
    have hsame : GDBServer.removeBp bus a (g, b) = (g, b) := by
      simp only [GDBServer.removeBp, hnone]
    have hlive : liveMachine.next live (.remove a) = live := List.erase_of_not_mem hmem
    rw [hsame, hlive]
    exact ⟨log, m, h⟩

omit h hlo hlt in
/-- A run whose removals are in turn keeps the log. -/
theorem undoable_run (hhi : hi ≤ 2 ^ 32) {packets : List (List Char)} {cmds : List BpCommand}
    (hparse : packets.map BpCommand.parse = cmds.map some)
    (haddr : ∀ cmd ∈ cmds, lo ≤ cmd.addr.toNat ∧ cmd.addr.toNat < hi)
    (h : Undoable hi View m₀ live s log m) (hturn : liveMachine.Along (InTurn hi) live cmds) :
    ∃ log' m', Undoable hi View m₀ (liveMachine.run live cmds) ((gdbMachine bus).run s packets)
      log' m' := by
  rw [gdbMachine_run bus hparse]
  clear hparse
  induction cmds generalizing live s log m with
  | nil => exact ⟨log, m, h⟩
  | cons cmd cmds ih =>
    obtain ⟨⟨hlo, hlt⟩, hrest⟩ := List.forall_mem_cons.1 haddr
    obtain ⟨hcmd, hturn⟩ := hturn
    cases cmd with
    | insert a =>
      obtain ⟨log', m', h'⟩ := undoable_insert hram h hlo hlt
      exact ih hrest h' hturn
    | remove a =>
      obtain ⟨log', m', h'⟩ := undoable_remove hram h hlo hlt hhi hcmd
      exact ih hrest h' hturn

end

/-- **Removing the breakpoints restores the program** in every run of `Z0` and `z0` packets with
addresses in RAM in which no breakpoint is removed before one that was inserted after it and
overlaps it. -/
theorem breakpoints_restored {β : Type*} {bus : PhysBus β} {lo hi : ℕ} {View : β → Ram → Prop}
    (hram : RamAt bus lo hi View) (hhi : hi ≤ 2 ^ 32) {b : β} {m : Ram} (hb : View b m)
    {packets : List (List Char)} {cmds : List BpCommand}
    (hparse : packets.map BpCommand.parse = cmds.map some)
    (haddr : ∀ cmd ∈ cmds, lo ≤ cmd.addr.toNat ∧ cmd.addr.toNat < hi)
    (hturn : liveMachine.Along (InTurn hi) [] cmds)
    (hall : ∀ a, ((gdbMachine bus).run ({}, b) packets).1.breakpoints a = none) :
    View ((gdbMachine bus).run ({}, b) packets).2 m := by
  have h₀ : Undoable hi View m [] (({} : GDBServer), b) [] m :=
    ⟨hb, rfl, .nil, fun _ _ => by simp, rfl⟩
  obtain ⟨log, m', h⟩ := undoable_run hram hhi hparse haddr h₀ hturn
  have hlog : log = [] := List.eq_nil_iff_forall_not_mem.2 fun ⟨a, v⟩ hmem => by
    have hv := (h.saved a v).2 hmem
    rw [hall] at hv
    cases hv
  have hundo := h.undo
  rw [hlog, UndoLog.undo] at hundo
  rw [← hundo]
  exact h.view

/-! Two overlapping breakpoints on the platform, in a RAM of zeros. -/

/-- Two breakpoints that share two bytes are inserted. -/
def insertTwo : List (List Char) := ["Z0,80000000,4".toList, "Z0,80000002,4".toList]

/-- The last one is removed first. -/
def removeInTurn : List (List Char) := ["z0,80000002,4".toList, "z0,80000000,4".toList]

/-- The first one is removed first. -/
def removeOutOfTurn : List (List Char) := ["z0,80000000,4".toList, "z0,80000002,4".toList]

theorem parse_inTurn : (insertTwo ++ removeInTurn).map BpCommand.parse =
    [BpCommand.insert 0x80000000, .insert 0x80000002, .remove 0x80000002,
      .remove 0x80000000].map some := by
  decide

theorem parse_outOfTurn : (insertTwo ++ removeOutOfTurn).map BpCommand.parse =
    [BpCommand.insert 0x80000000, .insert 0x80000002, .remove 0x80000000,
      .remove 0x80000002].map some := by
  decide

/-- The breakpoints after the two insertions. -/
def twoBps (v₁ v₂ : Word) : Word → Option Word :=
  Function.update (Function.update (fun _ => none) 0x80000000 (some v₁)) 0x80000002 (some v₂)

/-- What the second breakpoint saves contains half of the EBREAK of the first. -/
theorem insertTwo_run {b : Option (BusPort Unit)} (hb : PlatformView Unit b fun _ => 0) :
    ∃ b' m, (gdbMachine (socBus platformBus)).run ({}, b) insertTwo = (⟨twoBps 0 0x10⟩, b') ∧
      PlatformView Unit b' m := by
  have hparse : insertTwo.map BpCommand.parse =
      [BpCommand.insert 0x80000000, .insert 0x80000002].map some := by decide
  obtain ⟨v₁, b₁, m₁, hs₁, hb₁, -, hm₁⟩ := insertBp_new (a := 0x80000000) platform_ramAt hb
    (by decide) (by decide) (g := {}) rfl
  obtain ⟨hv₁, rfl⟩ := hm₁ (by decide)
  obtain ⟨v₂, b₂, m₂, hs₂, hb₂, -, hm₂⟩ := insertBp_new (a := 0x80000002) platform_ramAt hb₁
    (by decide) (by decide) (g := ⟨Function.update (fun _ => none) 0x80000000 (some v₁)⟩) rfl
  obtain ⟨hv₂, rfl⟩ := hm₂ (by decide)
  have h₁ : v₁ = 0 := by
    rw [hv₁]
    decide
  have h₂ : v₂ = 0x10 := by
    rw [hv₂]
    decide
  refine ⟨b₂, _, ?_, hb₂⟩
  rw [gdbMachine_run _ hparse, ← h₁, ← h₂]
  simp only [List.foldl_cons, List.foldl_nil, BpCommand.apply, hs₁, hs₂]
  rfl

theorem removeTwo_none (v₁ v₂ : Word) (a : Word) :
    Function.update (Function.update (twoBps v₁ v₂) 0x80000002 none) 0x80000000 none a = none ∧
      Function.update (Function.update (twoBps v₁ v₂) 0x80000000 none) 0x80000002 none a = none := by
  simp only [twoBps, Function.update_apply]
  split_ifs <;> exact ⟨rfl, rfl⟩

theorem breakpoints_restored_nested : ∃ b, PlatformView Unit b (fun _ => 0) ∧
    PlatformView Unit ((gdbMachine (socBus platformBus)).run ({}, b)
      (insertTwo ++ removeInTurn)).2 fun _ => 0 := by
  obtain ⟨b, hb⟩ := exists_platformView_zero
  refine ⟨b, hb, breakpoints_restored platform_ramAt (by decide) hb parse_inTurn (by decide)
    (by decide +kernel) fun a => ?_⟩
  obtain ⟨b', m, hrun, hb'⟩ := insertTwo_run hb
  obtain ⟨b₁, hs₁, hb₁⟩ := removeBp_present (a := 0x80000002) platform_ramAt hb' (by decide)
    (by decide) (g := ⟨twoBps 0 0x10⟩) rfl
  obtain ⟨b₂, hs₂, -⟩ := removeBp_present (a := 0x80000000) platform_ramAt hb₁ (by decide)
    (by decide) (g := ⟨Function.update (twoBps 0 0x10) 0x80000002 none⟩) rfl
  have hparse : removeInTurn.map BpCommand.parse =
      [BpCommand.remove 0x80000002, .remove 0x80000000].map some := by decide
  rw [Machine.run_append, hrun, gdbMachine_run _ hparse]
  simp only [List.foldl_cons, List.foldl_nil, BpCommand.apply, hs₁, hs₂]
  exact (removeTwo_none _ _ a).1

/-- Removed in the order of their insertion, the two breakpoints leave a byte of EBREAK behind. -/
theorem not_breakpoints_restored : ¬ ∀ (b : Option (BusPort Unit)) (m : Ram)
    (packets : List (List Char)) (cmds : List BpCommand), PlatformView Unit b m →
      packets.map BpCommand.parse = cmds.map some →
      (∀ cmd ∈ cmds, 0x80000000 ≤ cmd.addr.toNat ∧ cmd.addr.toNat < 0x88000000) →
      (∀ a, ((gdbMachine (socBus platformBus)).run ({}, b) packets).1.breakpoints a = none) →
        PlatformView Unit ((gdbMachine (socBus platformBus)).run ({}, b) packets).2 m := by
  intro h
  obtain ⟨b, hb⟩ := exists_platformView_zero
  obtain ⟨b', m, hrun, hb'⟩ := insertTwo_run hb
  obtain ⟨b₁, hs₁, hb₁⟩ := removeBp_present (a := 0x80000000) platform_ramAt hb' (by decide)
    (by decide) (g := ⟨twoBps 0 0x10⟩) rfl
  obtain ⟨b₂, hs₂, hb₂⟩ := removeBp_present (a := 0x80000002) platform_ramAt hb₁ (by decide)
    (by decide) (g := ⟨Function.update (twoBps 0 0x10) 0x80000000 none⟩) rfl
  have hparse : removeOutOfTurn.map BpCommand.parse =
      [BpCommand.remove 0x80000000, .remove 0x80000002].map some := by decide
  have hend : (gdbMachine (socBus platformBus)).run ({}, b) (insertTwo ++ removeOutOfTurn) =
      (⟨Function.update (Function.update (twoBps 0 0x10) 0x80000000 none) 0x80000002 none⟩, b₂) := by
    rw [Machine.run_append, hrun, gdbMachine_run _ hparse]
    simp only [List.foldl_cons, List.foldl_nil, BpCommand.apply, hs₁, hs₂]
  have hfinal := h b _ _ _ hb parse_outOfTurn (by decide) fun a => by
    rw [hend]
    exact (removeTwo_none _ _ a).2
  rw [hend] at hfinal
  have hbyte := hb₂.eq hfinal (a := 0x80000002) (by decide) (by decide)
  rw [restoreBp, if_pos (by decide), Bytes.writeLE_apply (by decide), if_pos (by decide)] at hbyte
  exact absurd hbyte (by decide)

end VirtualSoC
