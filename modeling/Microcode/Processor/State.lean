import Microcode.Processor.Buffer
import Microcode.Processor.Registers

namespace Microcode

-- What programs and executors read and write. `dataAddress` is a 24-bit address
-- once a construction has set it; its steps up and down change only the bits of
-- `incrementMask`. `uncorrected` is where an indexed dummy read goes.
structure Datapath where
  registers : Registers := {}
  instructionBuffer : Buffer := {}
  dataBuffer : Buffer := {}
  dataAddress : UInt32 := 0
  incrementMask : UInt32 := 0
  uncorrected : UInt32 := 0
  deriving DecidableEq, Inhabited

namespace Datapath

def clearBuffers (d : Datapath) : Datapath :=
  { d with instructionBuffer := .empty, dataBuffer := .empty }

def setDataAddress (d : Datapath) (address mask : UInt32) : Datapath :=
  { d with dataAddress := address &&& addressMask, incrementMask := mask }

def stepUp (d : Datapath) : Datapath :=
  { d with dataAddress :=
      (d.dataAddress &&& ~~~d.incrementMask) ||| ((d.dataAddress + 1) &&& d.incrementMask) }

def stepDown (d : Datapath) : Datapath :=
  { d with dataAddress :=
      (d.dataAddress &&& ~~~d.incrementMask) ||| ((d.dataAddress - 1) &&& d.incrementMask) }

def descendStack (d : Datapath) : Datapath :=
  { d with registers.s := d.registers.s - 1 }

def nextOperand (d : Datapath) : Datapath :=
  { d with registers.pc := d.registers.pc + 1 }

def pushOperand (d : Datapath) (byte : UInt8) : Except Fault Datapath := do
  return { d with instructionBuffer := ← d.instructionBuffer.push byte }

def pushData (d : Datapath) (byte : UInt8) : Except Fault Datapath := do
  return { d with dataBuffer := ← d.dataBuffer.push byte }

def destinationAddress (d : Datapath) : UInt32 :=
  inBank d.instructionBuffer.lowest d.registers.y

def sourceAddress (d : Datapath) : UInt32 :=
  inBank (d.instructionBuffer.value >>> 8).toUInt8 d.registers.x

end Datapath

-- The marker elides the bus cycle that comes next. It stands outside the
-- datapath, so that no executor can raise it.
structure State extends Datapath where
  skipNext : Bool := false
  deriving DecidableEq, Inhabited

namespace State

def ofRegisters (registers : Registers) : State :=
  { registers }

def beginInstruction (s : State) : State :=
  { s.clearBuffers with skipNext := false }

def withDatapath (s : State) (d : Datapath) : State :=
  { s with toDatapath := d }

end State

end Microcode
