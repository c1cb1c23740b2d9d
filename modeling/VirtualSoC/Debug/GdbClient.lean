import VirtualSoC.Debug.GdbPackets

/-!
# A session of the GDB server

`read_packet`, `send_packet` and `handle_client` of `debug/gdb_server.cpp`, over the bytes that the
debugger sends before the connection ends.

Writes to the socket succeed.  What the core is when it halts again is a parameter, `none` where it
never does.
-/

namespace VirtualSoC

/-- The bytes that arrive on the socket.  A `read` of more than one byte ends after a byte that is
marked: the rest has not arrived yet. -/
abbrev Stream := List (Char × Bool)

namespace Stream

/-- `read(fd, buf, n)`. -/
def read : ℕ → Stream → List Char × Stream
  | 0, s => ([], s)
  | _, [] => ([], [])
  | n + 1, (c, last) :: s =>
    if last then ([c], s)
    else
      let (cs, s) := read n s
      (c :: cs, s)

/-- Bytes are read up to the first `c`: those before it, and what follows it. -/
def readTo (c : Char) : Stream → List Char × Stream
  | [] => ([], [])
  | (d, _) :: s =>
    if d ≠ c then
      let (cs, s) := readTo c s
      (d :: cs, s)
    else ([], s)

theorem length_read_le (n : ℕ) (s : Stream) : (s.read n).2.length ≤ s.length := by
  induction s generalizing n with
  | nil => cases n <;> exact le_rfl
  | cons b s ih =>
    cases n with
    | zero => exact le_rfl
    | succ n =>
      rw [read]
      split
      · exact Nat.le_succ _
      · exact (ih n).trans (Nat.le_succ _)

theorem length_readTo_le (c : Char) (s : Stream) : (s.readTo c).2.length ≤ s.length := by
  induction s with
  | nil => exact le_rfl
  | cons b s ih =>
    rw [readTo]
    split
    · exact ih.trans (Nat.le_succ _)
    · exact Nat.le_succ _

theorem length_readTo_lt {c : Char} {s : Stream} (h : (s.readTo c).1 ≠ []) :
    (s.readTo c).2.length < s.length := by
  cases s with
  | nil => exact absurd rfl h
  | cons b s =>
    rw [readTo]
    split
    · exact Nat.lt_succ_of_le (length_readTo_le c s)
    · exact Nat.lt_succ_self _

end Stream

namespace GDBServer

/-- `read_packet`: the end of the stream ends both loops, as the delimiters do. -/
def readPacket (s : Stream) : List Char × Stream :=
  let (_, s) := s.readTo '$'
  let (payload, s) := s.readTo '#'
  let (_, s) := s.read 2
  (payload, s)

/-- What a packet and the acknowledgement of its reply leave of the stream. -/
theorem length_next_lt {s : Stream} (h : (readPacket s).1 ≠ []) :
    ((readPacket s).2.read 1).2.length < s.length :=
  calc ((readPacket s).2.read 1).2.length
      ≤ (readPacket s).2.length := Stream.length_read_le 1 _
    _ ≤ ((s.readTo '$').2.readTo '#').2.length := Stream.length_read_le 2 _
    _ < (s.readTo '$').2.length := Stream.length_readTo_lt h
    _ ≤ s.length := Stream.length_readTo_le '$' s

/-- The checksum of a packet. -/
def cksum (data : List Char) : Byte :=
  data.foldl (fun cksum c => cksum + BitVec.ofNat 8 c.toNat) 0

/-- What `send_packet` writes. -/
def packetText (data : String) : List Char :=
  '$' :: (data.toList ++ '#' :: setw2 (cksum data.toList).toNat)

end GDBServer

/-- A packet in the stream. -/
structure Frame where
  /-- The number of bytes of the stream that follow its `$`. -/
  after : ℕ
  payload : List Char
  deriving DecidableEq, Repr

/-- A debugger session. -/
structure GdbSession (β : Type) where
  state : GDBServer × ISS β
  /-- The bytes written to the socket. -/
  sent : List Char := []
  /-- The packets that `handle_client` has taken a branch for. -/
  handled : List Frame := []

namespace GDBServer

section

variable {β : Type} (bus : PhysBus β) (untilHalted : ISS β → Option (ISS β))

/-- The breakpoint handlers on the ISS. -/
def withIss (handler : GDBServer × β → Option (String × GDBServer × β)) (s : GDBServer × ISS β) :
    Option (Option String × GDBServer × ISS β) :=
  (handler (s.1, s.2.env.bus)).map fun (reply, server, b) =>
    (some reply, server, { s.2 with env := { s.2.env with bus := b } })

/-- The branches of `handle_client`: the reply and the next state.  The kill packet has no reply. -/
def handlePacket (pkt : List Char) (s : GDBServer × ISS β) :
    Option (Option String × GDBServer × ISS β) :=
  match pkt with
  | '?' :: _ => some (some "S05", s)
  | 'g' :: _ => some (some (handleReadRegs s.2), s)
  | 'G' :: data => (handleWriteRegs data s.2).map fun (reply, iss) => (some reply, s.1, iss)
  | 'm' :: data => (handleReadMem bus data s.2).map fun (reply, iss) => (some reply, s.1, iss)
  | 'M' :: data => (handleWriteMem bus data s.2).map fun (reply, iss) => (some reply, s.1, iss)
  | 's' :: _ =>
    (untilHalted ((issMachine bus).next s.2 .step)).map fun iss => (some "S05", s.1, iss)
  | 'c' :: _ =>
    (untilHalted ((issMachine bus).next s.2 .resume)).map fun iss => (some "S05", s.1, iss)
  | 'Z' :: '0' :: data => withIss (handleInsertBp bus ('0' :: data)) s
  | 'z' :: '0' :: data => withIss (handleRemoveBp bus ('0' :: data)) s
  | 'k' :: _ => some (none, s)
  | _ => some (some "", s)

/-- The loop of `handle_client`: an empty packet ends it, as the end of the stream does.  There is
no result where a number in a packet does not parse or the core does not halt again. -/
def handleClient (s : Stream) (c : GdbSession β) : Option (GdbSession β) :=
  let pkt := readPacket s
  let sent := c.sent ++ ['+']
  if _ : pkt.1 = [] then some { c with sent }
  else
    let handled := c.handled ++ [⟨(s.readTo '$').2.length, pkt.1⟩]
    match handlePacket bus untilHalted pkt.1 c.state with
    | none => none
    | some (none, state) => some { state, sent, handled }
    | some (some reply, state) =>
      handleClient (pkt.2.read 1).2 { state, sent := sent ++ packetText reply, handled }
termination_by s.length
decreasing_by exact length_next_lt ‹_›

end

end GDBServer

end VirtualSoC
