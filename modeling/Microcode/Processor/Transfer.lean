import Microcode.Processor.State

namespace Microcode

-- What a bus cycle asks for: a byte at an address and a use for it, or room for
-- a byte at an address with the datapath as it is afterwards. A refused cycle
-- never reaches the bus.
inductive Transfer where
  | fetch (address : UInt32) (absorb : UInt8 → Except Fault Datapath)
  | store (address : UInt32) (byte : UInt8) (after : Datapath)
  | refused (cause : Fault) (after : Datapath)

namespace Datapath

def storeLowest (d : Datapath) (address : UInt32) (settle : Datapath → Datapath) : Transfer :=
  let (byte, rest) := d.dataBuffer.takeLowest
  .store address byte (settle { d with dataBuffer := rest })

def storeHighest (d : Datapath) (address : UInt32) (settle : Datapath → Datapath) : Transfer :=
  match d.dataBuffer.takeHighest with
  | (.ok byte, rest) => .store address byte (settle { d with dataBuffer := rest })
  | (.error cause, rest) => .refused cause { d with dataBuffer := rest }

end Datapath

def BusCycle.transfer (c : BusCycle) (d : Datapath) : Transfer :=
  let stack := d.registers.s.toUInt32
  match c with
  | .fetchOperand =>
    .fetch d.registers.programAddress fun byte => (d.pushOperand byte).map (·.nextOperand)
  | .fetchLastOperand => .fetch d.registers.programAddress d.pushOperand
  | .idleProgram => .fetch d.registers.programAddress fun _ => .ok d
  | .fetchData => .fetch d.dataAddress d.pushData
  | .fetchDataUp => .fetch d.dataAddress fun byte => (d.pushData byte).map (·.stepUp)
  | .idleData => .fetch d.dataAddress fun _ => .ok d
  | .idleUncorrected => .fetch d.uncorrected fun _ => .ok d
  | .storeData => d.storeLowest d.dataAddress id
  | .storeDataUp => d.storeLowest d.dataAddress (·.stepUp)
  | .storeDataDown => d.storeHighest d.dataAddress (·.stepDown)
  | .rewriteData => .store d.dataAddress d.dataBuffer.lowest d
  | .push => d.storeHighest stack (·.descendStack)
  | .idleStack => .fetch stack fun _ => .ok d
  -- Both ends of a block move become the data address, so an executor sees the
  -- destination.
  | .fetchSource =>
    .fetch d.sourceAddress { d with dataAddress := d.sourceAddress }.pushData
  | .storeDestination =>
    { d with dataAddress := d.destinationAddress }.storeLowest d.destinationAddress id
  | .idleDestination => .fetch d.destinationAddress fun _ => .ok d

end Microcode
