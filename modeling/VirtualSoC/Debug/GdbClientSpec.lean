import VirtualSoC.Cpu.RamBus
import VirtualSoC.Debug.GdbFrames
import VirtualSoC.Debug.GdbPacketsSpec
import VirtualSoC.Lib.PartialRun

/-!
# Only complete packets are executed
-/

namespace VirtualSoC

namespace GDBServer

/-! ### Packets that do not parse -/

/-- A number in the packet does not parse. -/
def Malformed : List Char → Prop
  | 'G' :: data => ∃ i < 33, i * 8 + 8 ≤ data.length ∧ fromHex32Le data (i * 8) = none
  | 'm' :: data => ',' ∈ data ∧ (Stoul.stoul16 (data.takeWhile (· ≠ ',')) = none ∨
      Stoul.stoul16 (data.dropWhile (· ≠ ',')).tail = none)
  | 'M' :: data => ',' ∈ data ∧ ':' ∈ data ∧ (Stoul.stoul16 (data.takeWhile (· ≠ ',')) = none ∨
      hexPairs (data.dropWhile (· ≠ ':')).tail = none)
  | 'Z' :: '0' :: data => ∃ field, bpField ('0' :: data) = some field ∧ Stoul.stoul16 field = none
  | 'z' :: '0' :: data => ∃ field, bpField ('0' :: data) = some field ∧ Stoul.stoul16 field = none
  | _ => False

theorem foldlM_map_eq_none {α ν σ : Type} (f : α → Option ν) (g : σ → α → ν → σ) (l : List α)
    (s : σ) : l.foldlM (fun s i => (f i).map (g s i)) s = none ↔ ∃ i ∈ l, f i = none := by
  induction l generalizing s with
  | nil => simp
  | cons i l ih =>
    rw [List.foldlM_cons]
    cases hi : f i with
    | none => simp [hi]
    | some v => simp [hi, ih]

theorem mem_fields {n i : ℕ} :
    i ∈ (List.range 32).takeWhile (fun i => i * 8 + 8 ≤ n) ↔ i < 32 ∧ i * 8 + 8 ≤ n := by
  constructor
  · intro h
    exact ⟨List.mem_range.1 ((List.takeWhile_sublist _).subset h),
      by simpa using List.mem_takeWhile_imp h⟩
  · rintro ⟨hi, hn⟩
    -- the fields before it are in the packet, too
    have hsplit : List.range 32 = List.range (i + 1) ++ (List.range 32).drop (i + 1) := by
      have htake := (List.take_append_drop (i + 1) (List.range 32)).symm
      rwa [List.take_range, Nat.min_eq_left (Nat.succ_le_of_lt hi)] at htake
    rw [hsplit, List.takeWhile_append_of_pos]
    · exact List.mem_append_left _ (List.mem_range.2 (Nat.lt_succ_self i))
    · intro j hj
      have hlt := List.mem_range.1 hj
      exact decide_eq_true (by omega)

section

variable {β : Type} (bus : PhysBus β) (untilHalted : ISS β → Option (ISS β))

theorem handleWriteRegs_eq_none (data : List Char) (iss : ISS β) :
    handleWriteRegs data iss = none ↔
      ∃ i < 33, i * 8 + 8 ≤ data.length ∧ fromHex32Le data (i * 8) = none := by
  have hregs := foldlM_map_eq_none (fun i => fromHex32Le data (i * 8))
    (fun regs i v => Function.update regs (BitVec.ofNat 5 i) v)
    ((List.range 32).takeWhile fun i => i * 8 + 8 ≤ data.length) iss.state.regs
  simp only [mem_fields] at hregs
  rw [handleWriteRegs]
  cases hw : writeRegs data iss.state.regs with
  | none =>
    obtain ⟨i, ⟨hi, hlen⟩, hnone⟩ := hregs.1 hw
    exact iff_of_true rfl ⟨i, Nat.lt_succ_of_lt hi, hlen, hnone⟩
  | some regs =>
    -- the fields of the registers parse, which leaves the pc
    have hsome : ∀ i < 32, i * 8 + 8 ≤ data.length → fromHex32Le data (i * 8) ≠ none := by
      intro i hi hlen hnone
      have h := hregs.2 ⟨i, ⟨hi, hlen⟩, hnone⟩
      rw [writeRegs, h] at hw
      cases hw
    have hiff : (∃ i < 33, i * 8 + 8 ≤ data.length ∧ fromHex32Le data (i * 8) = none) ↔
        33 * 8 ≤ data.length ∧ fromHex32Le data (32 * 8) = none := by
      constructor
      · rintro ⟨i, hi, hlen, hnone⟩
        rcases Nat.lt_succ_iff_lt_or_eq.1 hi with hlt | rfl
        · exact absurd hnone (hsome i hlt hlen)
        · exact ⟨hlen, hnone⟩
      · rintro ⟨hlen, hnone⟩
        exact ⟨32, by decide, hlen, hnone⟩
    rw [hiff, Option.bind_eq_bind, Option.bind_some]
    by_cases hlen : 33 * 8 ≤ data.length
    · cases fromHex32Le data (32 * 8) <;> simp [hlen]
    · simp [hlen]

theorem handleReadMem_eq_none (data : List Char) (iss : ISS β) :
    handleReadMem bus data iss = none ↔ ',' ∈ data ∧
      (Stoul.stoul16 (data.takeWhile (· ≠ ',')) = none ∨
        Stoul.stoul16 (data.dropWhile (· ≠ ',')).tail = none) := by
  by_cases hcomma : ',' ∈ data
  · obtain ⟨_, rest, hdrop⟩ := exists_dropWhile hcomma
    rw [handleReadMem, hdrop, List.tail_cons, and_iff_right hcomma]
    dsimp only
    cases Stoul.stoul16 (data.takeWhile (· ≠ ',')) with
    | none => exact iff_of_true rfl (Or.inl rfl)
    | some addr => cases Stoul.stoul16 rest <;> simp
  · rw [handleReadMem, dropWhile_eq_nil hcomma]
    exact iff_of_false (Option.some_ne_none _) fun h => hcomma h.1

theorem handleWriteMem_eq_none (data : List Char) (iss : ISS β) :
    handleWriteMem bus data iss = none ↔ ',' ∈ data ∧ ':' ∈ data ∧
      (Stoul.stoul16 (data.takeWhile (· ≠ ',')) = none ∨
        hexPairs (data.dropWhile (· ≠ ':')).tail = none) := by
  by_cases hcomma : ',' ∈ data
  · obtain ⟨_, _, hdrop⟩ := exists_dropWhile hcomma
    by_cases hcolon : ':' ∈ data
    · obtain ⟨_, hex, hdrop'⟩ := exists_dropWhile hcolon
      rw [handleWriteMem, hdrop, hdrop', List.tail_cons, and_iff_right hcomma,
        and_iff_right hcolon]
      dsimp only
      cases Stoul.stoul16 (data.takeWhile (· ≠ ',')) with
      | none => exact iff_of_true rfl (Or.inl rfl)
      | some addr => cases hhex : hexPairs hex <;> simp [writePairs_eq, hhex]
    · rw [handleWriteMem, dropWhile_eq_nil hcolon, hdrop]
      exact iff_of_false (Option.some_ne_none _) fun h => hcolon h.2.1
  · rw [handleWriteMem, dropWhile_eq_nil hcomma]
    exact iff_of_false (Option.some_ne_none _) fun h => hcomma h.1

theorem withBp_eq_none (act : Word → GDBServer × β → GDBServer × β) (data : List Char)
    (s : GDBServer × ISS β) : withIss (withBpAddr act data) s = none ↔
      ∃ field, bpField data = some field ∧ Stoul.stoul16 field = none := by
  rw [withIss, Option.map_eq_none_iff, withBpAddr]
  cases bpField data with
  | none => simp
  | some field => simp

/-! ### The branches -/

/-- The packet lets the core run, and the core never halts again. -/
def Stuck (pkt : List Char) (iss : ISS β) : Prop :=
  match pkt with
  | 's' :: _ => untilHalted ((issMachine bus).next iss .step) = none
  | 'c' :: _ => untilHalted ((issMachine bus).next iss .resume) = none
  | _ => False

theorem handlePacket_eq_none (pkt : List Char) (s : GDBServer × ISS β) :
    handlePacket bus untilHalted pkt s = none ↔
      Malformed pkt ∨ Stuck bus untilHalted pkt s.2 := by
  unfold handlePacket Malformed Stuck
  have hleft {p q : Prop} (h : p ↔ q) : p ↔ q ∨ False := h.trans (or_iff_left id).symm
  split
  case h_3 data => exact hleft (Option.map_eq_none_iff.trans (handleWriteRegs_eq_none data s.2))
  case h_4 data => exact hleft (Option.map_eq_none_iff.trans (handleReadMem_eq_none bus data s.2))
  case h_5 data => exact hleft (Option.map_eq_none_iff.trans (handleWriteMem_eq_none bus data s.2))
  case h_6 => exact Option.map_eq_none_iff.trans (or_iff_right id).symm
  case h_7 => exact Option.map_eq_none_iff.trans (or_iff_right id).symm
  case h_8 data => exact hleft (withBp_eq_none (insertBp bus) ('0' :: data) s)
  case h_9 data => exact hleft (withBp_eq_none (removeBp bus) ('0' :: data) s)
  case h_11 =>
    refine iff_of_false (Option.some_ne_none _) ?_
    split <;> simp_all
  all_goals exact iff_of_false (Option.some_ne_none _) fun h => h.elim id id

theorem handlePacket_kill {pkt : List Char} {reply : Option String} {s s' : GDBServer × ISS β}
    (h : handlePacket bus untilHalted pkt s = some (reply, s')) :
    reply = none ↔ pkt.head? = some 'k' := by
  unfold handlePacket at h
  split at h
  case h_10 =>
    cases h
    exact iff_of_true rfl rfl
  case h_11 hk =>
    cases h
    refine iff_of_false (Option.some_ne_none _) fun hhead => ?_
    obtain ⟨data, hdata⟩ := List.head?_eq_some_iff.1 hhead
    exact hk data hdata
  case h_1 | h_2 =>
    cases h
    exact iff_of_false (Option.some_ne_none _) (by simp)
  all_goals
    obtain ⟨r, -, hr⟩ := Option.map_eq_some_iff.1 h
    cases hr
    exact iff_of_false (Option.some_ne_none _) (by simp)

/-! ### The session -/

/-- What a packet does to the server and the ISS. -/
def packetStep (s : GDBServer × ISS β) (f : Frame) : Option (GDBServer × ISS β) :=
  (handlePacket bus untilHalted f.payload s).map (·.2)

/-- The packet has an answer, after which the server reads on. -/
def Answered (pkt : List Char) : Prop :=
  pkt ≠ [] ∧ pkt.head? ≠ some 'k' ∧ ¬ Malformed pkt

variable {bus untilHalted} {s : Stream} {c c' : GdbSession β}

theorem packetStep_firstFrame {st st' : GDBServer × ISS β} {reply : Option String}
    (hp : handlePacket bus untilHalted s.payload st = some (reply, st')) :
    packetStep bus untilHalted st s.firstFrame = some st' := by
  rw [packetStep, Stream.firstFrame, hp]
  rfl

theorem handleClient_nil (hpkt : s.payload = []) (c : GdbSession β) :
    handleClient bus untilHalted s c = some { c with sent := c.sent ++ ['+'] } := by
  rw [handleClient, Stream.readPacket_eq]
  exact dif_pos hpkt

theorem handleClient_cons (hpkt : s.payload ≠ []) (c : GdbSession β) :
    handleClient bus untilHalted s c =
      (handlePacket bus untilHalted s.payload c.state).bind fun r =>
        match r.1 with
        | none => some
            { state := r.2, sent := c.sent ++ ['+'], handled := c.handled ++ [s.firstFrame] }
        | some reply => handleClient bus untilHalted s.next
            { state := r.2, sent := c.sent ++ ['+'] ++ packetText reply,
              handled := c.handled ++ [s.firstFrame] } := by
  have hread : (readPacket s).1 = s.payload := by rw [Stream.readPacket_eq]
  rw [handleClient]
  dsimp only
  rw [dif_neg (hread ▸ hpkt), hread, Stream.readTo_dollar]
  rcases handlePacket bus untilHalted s.payload c.state with _ | ⟨_ | reply, state⟩
  · rfl
  · rfl
  · rfl

/-- The state after a session is that of the packets that it has handled, the first of which comes
first in the stream. -/
theorem handleClient_run (h : handleClient bus untilHalted s c = some c') :
    ∃ l, c'.handled = c.handled ++ l ∧
      PartialRun.run (packetStep bus untilHalted) c.state l = some c'.state ∧
      (∀ f ∈ l, f.after < s.length) ∧ (s.payload ≠ [] → s.firstFrame ∈ l) := by
  induction hn : s.length using Nat.strong_induction_on generalizing s c with
  | _ n ih =>
  subst hn
  by_cases hpkt : s.payload = []
  · rw [handleClient_nil hpkt] at h
    cases h
    exact ⟨[], (List.append_nil _).symm, rfl, fun f hf => absurd hf List.not_mem_nil,
      fun hne => absurd hpkt hne⟩
  · have hfirst : s.firstFrame.after < s.length := Stream.length_body_lt hpkt
    rw [handleClient_cons hpkt] at h
    obtain ⟨⟨reply, state⟩, hp, h⟩ := Option.bind_eq_some_iff.1 h
    have hstep := packetStep_firstFrame hp
    cases reply with
    | none =>
      cases h
      refine ⟨[s.firstFrame], rfl, PartialRun.run_cons hstep, ?_,
        fun _ => List.mem_singleton_self _⟩
      intro f hf
      rwa [List.mem_singleton.1 hf]
    | some reply =>
      have hlt := Stream.length_next_lt hpkt
      obtain ⟨l, hl, hrun, hafter, -⟩ := ih s.next.length hlt h rfl
      refine ⟨s.firstFrame :: l, ?_, (PartialRun.run_cons hstep).trans hrun, ?_,
        fun _ => List.mem_cons_self⟩
      · rw [hl, List.append_assoc, List.singleton_append]
      · intro f hf
        rcases List.mem_cons.1 hf with rfl | hf
        · exact hfirst
        · exact (hafter f hf).trans hlt

/-! ### Complete packets -/

/-- The server takes the complete packets of the stream, in order, and nothing else; and it
returns. -/
def ActsOnFrames (bus : PhysBus β) (untilHalted : ISS β → Option (ISS β)) (s : Stream)
    (c : GdbSession β) : Prop :=
  ∃ c', handleClient bus untilHalted s c = some c' ∧ c'.handled = c.handled ++ s.frames ∧
    PartialRun.run (packetStep bus untilHalted) c.state s.frames = some c'.state

/-- No packet lets the core run forever. -/
def Halts (bus : PhysBus β) (untilHalted : ISS β → Option (ISS β)) :
    GDBServer × ISS β → List Frame → Prop
  | _, [] => True
  | s, f :: fs => ¬ Stuck bus untilHalted f.payload s.2 ∧
    ∀ s', packetStep bus untilHalted s f = some s' → Halts bus untilHalted s' fs

end

/-- The streams of which the server takes the complete packets. -/
inductive Proper : Stream → Prop
  /-- No payload has begun, or it is empty; and no complete packet is left. -/
  | done {s} (hpkt : s.payload = []) (hframes : s.frames = []) : Proper s
  /-- The kill packet is the last one that is received. -/
  | kill {s f apart rest} (h : s.frame? = some (f, apart, rest))
      (hkill : f.payload.head? = some 'k') : Proper s
  /-- The second checksum character comes apart, so that it is taken as the acknowledgement. -/
  | apart {s f rest} (h : s.frame? = some (f, true, rest)) (hpkt : Answered f.payload)
      (hrest : Proper rest) : Proper s
  /-- The byte that is taken as the acknowledgement is not the `$` of a complete packet. -/
  | next {s f rest} (h : s.frame? = some (f, false, rest)) (hpkt : Answered f.payload)
      (hack : Stream.frames rest.tail = rest.frames) (hrest : Proper rest.tail) : Proper s
  /-- No complete packet is left, and none is read after the acknowledgement. -/
  | last {s f rest} (h : s.frame? = some (f, false, rest)) (hpkt : Answered f.payload)
      (hempty : Stream.payload rest.tail = []) (hframes : rest.frames = []) : Proper s

/-- A read and a kill packet, with an acknowledgement between them. -/
example : Proper ("$m0,4#fd+$k#6b".toList.map (·, false)) := by
  have hread : Stream.frame? ("$m0,4#fd+$k#6b".toList.map (·, false)) =
      some (⟨13, "m0,4".toList⟩, false, "+$k#6b".toList.map (·, false)) := by decide
  have hkill : Stream.frame? ("$k#6b".toList.map (·, false)) =
      some (⟨4, "k".toList⟩, false, []) := by decide
  refine .next hread ⟨by decide, by decide, ?_⟩ (Stream.frames_congr rfl) (.kill hkill rfl)
  rintro ⟨-, haddr | hlen⟩
  · exact absurd haddr (by decide)
  · exact absurd hlen (by decide)

section

variable {β : Type} {bus : PhysBus β} {untilHalted : ISS β → Option (ISS β)} {s : Stream}
  {c c' : GdbSession β} {f : Frame} {apart : Bool} {rest : Stream}

theorem Answered.frames_eq (hpkt : Answered f.payload) (h : s.frame? = some (f, apart, rest)) :
    s.frames = f :: rest.frames := by
  rw [Stream.frames_of_some h, if_neg hpkt.1, if_neg hpkt.2.1]

theorem Answered.handleClient_eq (hpkt : Answered f.payload)
    (h : s.frame? = some (f, apart, rest)) (hhalt : ¬ Stuck bus untilHalted f.payload c.state.2) :
    ∃ c₁ : GdbSession β, packetStep bus untilHalted c.state f = some c₁.state ∧
      c₁.handled = c.handled ++ [f] ∧
      handleClient bus untilHalted s c = handleClient bus untilHalted s.next c₁ := by
  obtain ⟨rfl, -⟩ := Stream.frame?_eq_some h
  obtain ⟨⟨reply, state⟩, hp⟩ : ∃ r, handlePacket bus untilHalted s.payload c.state = some r := by
    refine Option.ne_none_iff_exists'.1 fun hnone => ?_
    exact ((handlePacket_eq_none bus untilHalted _ _).1 hnone).elim hpkt.2.2 hhalt
  have hstep := packetStep_firstFrame hp
  cases reply with
  | none => exact absurd ((handlePacket_kill bus untilHalted hp).1 rfl) hpkt.2.1
  | some reply =>
    refine ⟨{ state, sent := c.sent ++ ['+'] ++ packetText reply,
              handled := c.handled ++ [s.firstFrame] }, hstep, rfl, ?_⟩
    rw [handleClient_cons hpkt.1, hp]
    rfl

/-- A complete packet, and then the packets that are left. -/
theorem Answered.acts (hpkt : Answered f.payload) (h : s.frame? = some (f, apart, rest))
    (hh : Halts bus untilHalted c.state s.frames)
    (hrest : ∀ c₁ : GdbSession β, Halts bus untilHalted c₁.state rest.frames →
      ∃ c', handleClient bus untilHalted s.next c₁ = some c' ∧
        c'.handled = c₁.handled ++ rest.frames ∧
        PartialRun.run (packetStep bus untilHalted) c₁.state rest.frames = some c'.state) :
    ActsOnFrames bus untilHalted s c := by
  rw [hpkt.frames_eq h] at hh
  obtain ⟨c₁, hstep, hhandled, heq⟩ := hpkt.handleClient_eq h hh.1
  obtain ⟨c', hc', hframes, hrun⟩ := hrest c₁ (hh.2 _ hstep)
  refine ⟨c', heq.trans hc', ?_, ?_⟩
  · rw [hframes, hhandled, hpkt.frames_eq h, List.append_assoc, List.singleton_append]
  · rw [hpkt.frames_eq h, PartialRun.run_cons hstep, hrun]

theorem acts_of_kill (h : s.frame? = some (f, apart, rest)) (hkill : f.payload.head? = some 'k') :
    ActsOnFrames bus untilHalted s c := by
  obtain ⟨rfl, -⟩ := Stream.frame?_eq_some h
  obtain ⟨data, hdata⟩ : ∃ data, s.payload = 'k' :: data := List.head?_eq_some_iff.1 hkill
  have hne : s.payload ≠ [] := hdata ▸ List.cons_ne_nil _ _
  have hframes : s.frames = [s.firstFrame] := by
    rw [Stream.frames_of_some h, if_pos hkill]
    exact if_neg hne
  have hp : handlePacket bus untilHalted s.payload c.state = some (none, c.state) := by
    rw [hdata]
    rfl
  refine ⟨{ c with sent := c.sent ++ ['+'], handled := c.handled ++ [s.firstFrame] }, ?_,
    congrArg (c.handled ++ ·) hframes.symm, ?_⟩
  · rw [handleClient_cons hne, hp]
    rfl
  · rw [hframes, PartialRun.run_cons (packetStep_firstFrame hp)]
    rfl

theorem acts_of_proper (h : Proper s) (hh : Halts bus untilHalted c.state s.frames) :
    ActsOnFrames bus untilHalted s c := by
  induction h generalizing c with
  | done hpkt hframes =>
    refine ⟨_, handleClient_nil hpkt c, ?_, ?_⟩
    · rw [hframes, List.append_nil]
    · rw [hframes]
      rfl
  | kill h hkill => exact acts_of_kill h hkill
  | apart h hpkt _ ih =>
    refine hpkt.acts h hh fun c₁ hh₁ => ?_
    rw [Stream.next_of_some h]
    exact ih hh₁
  | next h hpkt hack _ ih =>
    refine hpkt.acts h hh fun c₁ hh₁ => ?_
    rw [Stream.next_of_some h, ← hack]
    exact ih (hack ▸ hh₁)
  | last h hpkt hempty hframes =>
    refine hpkt.acts h hh fun c₁ _ => ?_
    rw [Stream.next_of_some h, hframes]
    exact ⟨_, handleClient_nil hempty c₁, (List.append_nil _).symm, rfl⟩

/-- Where the packets lie that a session has handled. -/
theorem mem_of_handled {fs : List Frame} (h : handleClient bus untilHalted s c = some c')
    (hhandled : c'.handled = c.handled ++ fs) :
    (∀ f ∈ fs, f.after < s.length) ∧ (s.payload ≠ [] → s.firstFrame ∈ fs) := by
  obtain ⟨l, hl, -, hafter, hfirst⟩ := handleClient_run h
  rw [List.append_cancel_left (hhandled.symm.trans hl)]
  exact ⟨hafter, hfirst⟩

/-- A session that has taken exactly the complete packets. -/
theorem proper_of_acts (h : handleClient bus untilHalted s c = some c')
    (hhandled : c'.handled = c.handled ++ s.frames) : Proper s := by
  induction hn : s.length using Nat.strong_induction_on generalizing s c with
  | _ n ih =>
  subst hn
  by_cases hpkt : s.payload = []
  · rw [handleClient_nil hpkt] at h
    cases h
    exact .done hpkt (List.self_eq_append_right.1 hhandled)
  have hfirst := (mem_of_handled h hhandled).2 hpkt
  rw [handleClient_cons hpkt] at h
  obtain ⟨⟨reply, state⟩, hp, h⟩ := Option.bind_eq_some_iff.1 h
  have hfine : ¬ Malformed s.payload := by
    intro hbad
    rw [(handlePacket_eq_none bus untilHalted _ _).2 (Or.inl hbad)] at hp
    cases hp
  cases hframe : s.frame? with
  | none =>
    -- the first packet has been handled, although it is not complete
    rw [Stream.frames_of_none hframe] at hfirst
    cases hfirst
  | some r =>
    obtain ⟨f, apart, rest⟩ := r
    obtain ⟨rfl, -⟩ := Stream.frame?_eq_some hframe
    cases reply with
    | none => exact .kill hframe ((handlePacket_kill bus untilHalted hp).1 rfl)
    | some reply =>
      have hans : Answered s.firstFrame.payload :=
        ⟨hpkt, fun hk => Option.some_ne_none _ ((handlePacket_kill bus untilHalted hp).2 hk), hfine⟩
      rw [hans.frames_eq hframe, List.append_cons] at hhandled
      have hlt := Stream.length_next_lt hpkt
      dsimp only at h
      rw [Stream.next_of_some hframe] at h hlt
      cases apart with
      | true => exact .apart hframe hans (ih _ hlt h hhandled rfl)
      | false =>
        by_cases hempty : Stream.payload rest.tail = []
        · -- the server returns
          rw [if_neg Bool.false_ne_true, handleClient_nil hempty] at h
          cases h
          exact .last hframe hans hempty (List.self_eq_append_right.1 hhandled)
        · obtain ⟨hafter, hmem⟩ := mem_of_handled h hhandled
          have hack := Stream.frames_tail (hmem hempty) hafter
          exact .next hframe hans hack (ih _ hlt h (hhandled.trans (by rw [← hack])) rfl)

theorem halts_of_run {s s' : GDBServer × ISS β} {fs : List Frame}
    (h : PartialRun.run (packetStep bus untilHalted) s fs = some s') :
    Halts bus untilHalted s fs := by
  induction fs generalizing s with
  | nil => trivial
  | cons f fs ih =>
    obtain ⟨s₁, hs₁, hrun⟩ := Option.bind_eq_some_iff.1 h
    constructor
    · intro hstuck
      rw [packetStep, (handlePacket_eq_none bus untilHalted _ _).2 (Or.inr hstuck)] at hs₁
      cases hs₁
    · intro s₂ hs₂
      cases hs₁.symm.trans hs₂
      exact ih hrun

end

end GDBServer

/-- The stream ends inside the payload. -/
def truncatedWrite : Stream := "$M80000000,1:41".toList.map (·, false)

/-- A core over plain RAM, all of it 0, and no breakpoint. -/
def freshSession : GdbSession Ram where
  state := ({}, ISS.reset 0 (fun _ => 0) false)

end VirtualSoC
