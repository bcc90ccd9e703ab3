import Microcode.Instruction.Operation
import Microcode.Processor.State

namespace Microcode

-- The memory system. Every call is one bus cycle.
class Bus (β : Type) where
  fetch : β → AddressSpace → UInt32 → UInt8 × β
  store : β → AddressSpace → UInt32 → UInt8 → β

-- `again` asks for another pass of the program, which only block moves get.
inductive Completion where
  | done
  | again
  deriving DecidableEq, Inhabited

def Completion.name : Completion → String
  | .done => "Done"
  | .again => "Repeat"

structure Performed (ε : Type) where
  completion : Completion
  datapath : Datapath
  executor : ε

-- Gives operations their meaning. Reads find their operand in the data buffer,
-- writes leave their result there, jumps change PC and the program bank.
class Executor (ε : Type) where
  perform : ε → Operation → Width → State → Performed ε

inductive Event where
  | fetch (space : AddressSpace) (address : UInt32) (value : UInt8)
  | store (space : AddressSpace) (address : UInt32) (value : UInt8)
  | perform (operation : Operation) (width : Width) (state : State)
  deriving DecidableEq

structure Machine (β ε : Type) where
  state : State
  bus : β
  executor : ε

-- A machine with the account of the dispatch under way. Cycles are counted where
-- they are spent and not read off the events.
structure Run (β ε : Type) extends Machine β ε where
  cycles : Nat := 0
  events : Array Event := #[]

end Microcode
