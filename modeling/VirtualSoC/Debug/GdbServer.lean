import Mathlib.Logic.Function.Basic
import VirtualSoC.Cpu.Iss
import VirtualSoC.Lib.Stoul

/-!
# Breakpoints of the GDB server

`handle_insert_bp` and `handle_remove_bp` of `debug/gdb_server.cpp`, over the physical bus of the
ISS.  A packet whose address does not parse makes `std::stoul` throw; then the server has no
result.
-/

namespace VirtualSoC

/-- The members of `GDBServer` that the breakpoint packets use. -/
structure GDBServer where
  /-- The original instruction at each address where EBREAK has been put. -/
  breakpoints : Word → Option Word := fun _ => none

/-- `EBREAK_INSN`. -/
def ebreakInsn : Word := 0x00100073

/-- The text between the first comma and the second, or the end. -/
def bpField (data : List Char) : Option (List Char) :=
  match data.dropWhile (· ≠ ',') with
  | [] => none
  | _ :: rest => some (rest.takeWhile (· ≠ ','))

namespace GDBServer

variable {β : Type*} (bus : PhysBus β)

/-- What an insertion does once the address is known. -/
def insertBp (addr : Word) (s : GDBServer × β) : GDBServer × β :=
  match s.1.breakpoints addr with
  | some _ => s
  | none =>
    let (orig, b) := bus.read addr 4 s.2
    ({ breakpoints := Function.update s.1.breakpoints addr (some orig) },
      bus.write addr ebreakInsn 4 b)

/-- What a removal does once the address is known. -/
def removeBp (addr : Word) (s : GDBServer × β) : GDBServer × β :=
  match s.1.breakpoints addr with
  | none => s
  | some orig =>
    ({ breakpoints := Function.update s.1.breakpoints addr none }, bus.write addr orig 4 s.2)

/-- The common part of both handlers: the reply, and the state after `act`. -/
def withBpAddr (act : Word → GDBServer × β → GDBServer × β) (data : List Char)
    (s : GDBServer × β) : Option (String × GDBServer × β) :=
  match bpField data with
  | none => some ("E01", s)
  | some field => (Stoul.stoul16 field).map fun v => ("OK", act (v.setWidth 32) s)

/-- `handle_insert_bp`. -/
def handleInsertBp (data : List Char) : GDBServer × β → Option (String × GDBServer × β) :=
  withBpAddr (insertBp bus) data

/-- `handle_remove_bp`. -/
def handleRemoveBp (data : List Char) : GDBServer × β → Option (String × GDBServer × β) :=
  withBpAddr (removeBp bus) data

/-- The branches of `handle_client` for `Z0` and `z0`. -/
def handleBp (pkt : List Char) (s : GDBServer × β) : Option (String × GDBServer × β) :=
  match pkt with
  | 'Z' :: '0' :: data => handleInsertBp bus ('0' :: data) s
  | 'z' :: '0' :: data => handleRemoveBp bus ('0' :: data) s
  | _ => none

end GDBServer

end VirtualSoC
