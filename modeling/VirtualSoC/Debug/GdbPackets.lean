import VirtualSoC.Debug.GdbServer

/-!
# Register and memory packets of the GDB server

The `g`, `G`, `m` and `M` packets of `debug/gdb_server.cpp`, over the ISS and its physical bus.
As for the breakpoint packets, there is no result where `std::stoul` or `substr` throws.
-/

namespace VirtualSoC

namespace GDBServer

/-! ### Texts -/

/-- `std::hex << std::setfill('0') << std::setw(2) << n`. -/
def setw2 (n : ℕ) : List Char :=
  let digits := Nat.toDigits 16 n
  List.replicate (2 - digits.length) '0' ++ digits

/-- `hex.substr(pos, n)`. -/
def substr (hex : List Char) (pos n : ℕ) : Option (List Char) :=
  if pos > hex.length then none else some ((hex.drop pos).take n)

/-- Eight digits, the low byte first. -/
def toHex32Le (val : Word) : List Char :=
  setw2 ((val >>> 0) &&& 0xFF).toNat ++ setw2 ((val >>> 8) &&& 0xFF).toNat ++
    setw2 ((val >>> 16) &&& 0xFF).toNat ++ setw2 ((val >>> 24) &&& 0xFF).toNat

/-- The function `byte` of `from_hex32_le`. -/
def hexByte (hex : List Char) (pos : ℕ) : Option Word := do
  let s ← substr hex pos 2
  let v ← Stoul.stoul16 s
  return v.setWidth 32

/-- The inverse of `toHex32Le`, from a position on. -/
def fromHex32Le (hex : List Char) (offset : ℕ) : Option Word := do
  let b0 ← hexByte hex (offset + 0 * 2)
  let b1 ← hexByte hex (offset + 1 * 2)
  let b2 ← hexByte hex (offset + 2 * 2)
  let b3 ← hexByte hex (offset + 3 * 2)
  return b0 ||| b1 <<< 8 ||| b2 <<< 16 ||| b3 <<< 24

variable {β : Type} (bus : PhysBus β)

/-! ### Registers -/

/-- The reply to `g`. -/
def handleReadRegs (iss : ISS β) : String :=
  String.ofList ((List.range 32).flatMap (fun i => toHex32Le (iss.state.regs (BitVec.ofNat 5 i))) ++
    toHex32Le iss.state.pc)

/-- The loop of `handle_write_regs`: a shorter packet writes the first registers only. -/
def writeRegs (data : List Char) (regs : BitVec 5 → Word) : Option (BitVec 5 → Word) :=
  ((List.range 32).takeWhile fun i => i * 8 + 8 ≤ data.length).foldlM
    (fun regs i => (fromHex32Le data (i * 8)).map fun v =>
      Function.update regs (BitVec.ofNat 5 i) v) regs

/-- `handle_write_regs`: x0 stays zero. -/
def handleWriteRegs (data : List Char) (iss : ISS β) : Option (String × ISS β) := do
  let regs ← writeRegs data iss.state.regs
  let pc ← if data.length ≥ 33 * 8 then fromHex32Le data (32 * 8) else some iss.state.pc
  return ("OK", { iss with state := { iss.state with regs := Function.update regs 0 0, pc } })

/-! ### Memory -/

/-- The loop of `handle_read_mem`. -/
def readBytes : ℕ → Word → β → List Byte × β
  | 0, _, b => ([], b)
  | n + 1, addr, b =>
    let (v, b) := bus.read addr 1 b
    let (bytes, b) := readBytes n (addr + 1) b
    ((v &&& 0xFF).setWidth 8 :: bytes, b)

/-- `handle_read_mem`. -/
def handleReadMem (data : List Char) (iss : ISS β) : Option (String × ISS β) :=
  match data.dropWhile (· ≠ ',') with
  | [] => some ("E01", iss)
  | _ :: rest => do
    let addr ← Stoul.stoul16 (data.takeWhile (· ≠ ','))
    let len ← Stoul.stoul16 rest
    let (bytes, b) := readBytes bus (len.setWidth 32).toNat (addr.setWidth 32) iss.env.bus
    return (String.ofList (bytes.flatMap fun byte => setw2 byte.toNat),
      { iss with env := { iss.env with bus := b } })

/-- The loop of `handle_write_mem`: one byte for each pair of digits; a digit left over is
ignored. -/
def writePairs : List Char → Word → β → Option β
  | c :: d :: hex, addr, b => do
    let byte ← Stoul.stoul16 [c, d]
    writePairs hex (addr + 1) (bus.write addr ((byte.setWidth 8).setWidth 32) 1 b)
  | _, _, b => some b

/-- The bytes written are those after the colon: the length in the packet is not read. -/
def handleWriteMem (data : List Char) (iss : ISS β) : Option (String × ISS β) :=
  match data.dropWhile (· ≠ ','), data.dropWhile (· ≠ ':') with
  | _ :: _, _ :: hex => do
    let addr ← Stoul.stoul16 (data.takeWhile (· ≠ ','))
    let b ← writePairs bus hex (addr.setWidth 32) iss.env.bus
    return ("OK", { iss with env := { iss.env with bus := b } })
  | _, _ => some ("E01", iss)

end GDBServer

end VirtualSoC
