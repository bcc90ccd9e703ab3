import Microcode.Processor.State

namespace Microcode

def addIndex (base : UInt32) (index : UInt16) : Except Fault UInt32 :=
  if base.toNat + index.toNat < 0x100000000 then .ok (base + index.toUInt32) else .error .sumOutOfReach

namespace State

def aim (s : State) (address mask : UInt32) : State :=
  s.withDatapath (s.setDataAddress address mask)

-- The direct page lies in bank zero. Where it starts on a page boundary, the
-- sum costs no cycle of its own.
def aimDirect (s : State) (offset : UInt16) : State :=
  let operand := s.instructionBuffer.lowest.toUInt16
  { s.aim (s.registers.direct + operand + offset).toUInt32 bankMask with
    skipNext := s.registers.direct.toUInt8 == 0 }

-- The dummy read goes to the page of the base with the low byte of the sum,
-- which is the right address just when no page was crossed.
def aimIndexed (s : State) (base : UInt32) (index : Index) (elide : Bool) : State :=
  let address := (base + (s.registers.index index).toUInt32) &&& addressMask
  let uncorrected := (base &&& 0xffff00) ||| (address &&& 0xff)
  { s.aim address addressMask with
    uncorrected
    skipNext := elide && s.registers.indexWidth == .eight && address == uncorrected }

def dropPointer (s : State) : State :=
  { s with dataBuffer := .empty }

end State

-- Data-bank and long addresses carry into the bank, all others wrap within it.
def Construction.apply (c : Construction) (s : State) : Except Fault State :=
  let r := s.registers
  let operand := s.instructionBuffer.value
  let pointer := s.dataBuffer.value
  match c with
  | .absolute => .ok (s.aim (inBank r.dataBank operand.toUInt16) addressMask)
  | .absoluteBankZero => .ok (s.aim operand.toUInt16.toUInt32 bankMask)
  | .absoluteLong => .ok (s.aim operand addressMask)
  | .absoluteLongX => .ok (s.aim (operand + r.x.toUInt32) addressMask)
  | .absoluteIndexed index elide =>
    .ok (s.aimIndexed (inBank r.dataBank operand.toUInt16) index elide)
  | .absoluteIndexedIndirect => do
    let sum ← addIndex operand r.x
    return s.aim (inBank r.programBank sum.toUInt16) bankMask
  | .direct => .ok (s.aimDirect 0)
  | .directIndexed index => .ok (s.aimDirect (r.index index))
  | .directIndexedIndirect => .ok (s.aimDirect r.x)
  | .directIndirect => .ok (s.dropPointer.aim (inBank r.dataBank pointer.toUInt16) addressMask)
  | .directIndirectIndexed elide =>
    .ok (s.dropPointer.aimIndexed (inBank r.dataBank pointer.toUInt16) .y elide)
  | .directIndirectLong => .ok (s.dropPointer.aim pointer addressMask)
  | .directIndirectLongIndexed => .ok (s.dropPointer.aim (pointer + r.y.toUInt32) addressMask)
  | .stackRelative =>
    .ok (s.aim (r.s + s.instructionBuffer.lowest.toUInt16).toUInt32 bankMask)
  | .stackRelativeIndirectIndexed => do
    let sum ← addIndex (inBank r.dataBank pointer.toUInt16) r.y
    return s.dropPointer.aim sum addressMask

def Copy.apply (c : Copy) (width : Width) (d : Datapath) : Datapath :=
  let r := d.registers
  match c with
  | .pcToData => { d with dataBuffer := .ofValue r.pc.toUInt32 2 }
  | .programBankToData => { d with dataBuffer := .ofValue r.programBank.toUInt32 1 }
  | .instructionToData => { d with dataBuffer := d.instructionBuffer }
  | .accumulatorToData =>
    { d with dataBuffer := .ofValue (r.a &&& width.mask).toUInt32 width.bytes }
  | .dataToAccumulator =>
    { d with registers.a := (r.a &&& ~~~width.mask) ||| (d.dataBuffer.word &&& width.mask) }

end Microcode
