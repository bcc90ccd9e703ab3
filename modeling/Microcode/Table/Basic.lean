import Microcode.Instruction.AddressingMode
import Microcode.Instruction.Operation
import Microcode.Program.MicroOp

namespace Microcode

structure Assignment where
  opcode : UInt8
  mode : AddressingMode
  operation : Operation
  deriving DecidableEq

structure Entry where
  operation : Operation
  eightOffset : Nat
  sixteenOffset : Nat
  deriving DecidableEq

structure Instruction where
  offset : Nat
  operation : Operation
  deriving DecidableEq

def Entry.forWidth (e : Entry) (width : Width) : Instruction where
  offset := match width with
    | .eight => e.eightOffset
    | .sixteen => e.sixteenOffset
  operation := e.operation

def Entry.isShared (e : Entry) : Bool :=
  e.eightOffset == e.sixteenOffset

structure IllegalOpcode where
  opcode : UInt8
  width : Width
  deriving DecidableEq

structure Table where
  store : Array MicroOp
  entries : Vector (Option Entry) 256

namespace Table

def empty : Table where
  store := #[]
  entries := .replicate 256 none

def entry? (t : Table) (opcode : UInt8) : Option Entry :=
  t.entries.get opcode.toFin

def instruction? (t : Table) (opcode : UInt8) (width : Width) : Option Instruction :=
  (t.entry? opcode).map (·.forWidth width)

def programAt (t : Table) (offset : Nat) : Program :=
  (t.store.toList.drop offset).takeWhile (· != .endOfProgram)

def program (t : Table) (opcode : UInt8) (width : Width) : Except IllegalOpcode Program :=
  match t.instruction? opcode width with
  | some instruction => .ok (t.programAt instruction.offset)
  | none => .error ⟨opcode, width⟩

def implemented (t : Table) : List (UInt8 × Entry) :=
  (List.range 256).filterMap fun n =>
    let opcode := UInt8.ofNat n
    (t.entry? opcode).map (opcode, ·)

end Table

end Microcode
