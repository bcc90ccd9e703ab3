import Microcode.Program.OfMode
import Microcode.Proofs.Execution.Stretch

namespace Microcode

def uncorrectedAddress (base index : Nat) : Nat :=
  256 * (base / 256) + (base + index) % 256

-- Indexing costs a dummy read, unless a read with 8-bit index registers stays on
-- the page. The index counts in full, also where it exceeds a byte.
def Registers.indexReads (R : Registers) (access : Access) (base : Nat) (index : UInt16) : Nat :=
  if access = .read ∧ R.indexWidth = .eight ∧ base % 256 + index.toNat ≤ 0xff then 0 else 1

def Registers.directReads (R : Registers) : Nat :=
  if R.direct.toNat % 256 = 0 then 0 else 1

namespace AddressingMode

def isTransfer : AddressingMode → Bool
  | .absolute | .absoluteLong | .absoluteLongX | .absoluteX | .absoluteY | .direct | .directX
  | .directY | .directIndexedIndirect | .directIndirect | .directIndirectIndexed
  | .directIndirectLong | .directIndirectLongIndexed | .stackRelative
  | .stackRelativeIndirectIndexed => true
  | _ => false

def isModify : AddressingMode → Bool
  | .absoluteModify | .absoluteXModify | .directModify | .directXModify => true
  | _ => false

def operandLength : AddressingMode → Nat
  | .accumulator => 0
  | .direct | .directModify | .directX | .directXModify | .directY | .directIndexedIndirect
  | .directIndirect | .directIndirectIndexed | .directIndirectLong | .directIndirectLongIndexed
  | .stackRelative | .stackRelativeIndirectIndexed => 1
  | .absoluteLong | .absoluteLongJump | .absoluteLongCall | .absoluteLongX => 3
  | _ => 2

def pointerLength : AddressingMode → Nat
  | .absoluteIndexedIndirectJump | .absoluteIndexedIndirectCall | .absoluteIndirectJump
  | .directIndexedIndirect | .directIndirect | .directIndirectIndexed
  | .stackRelativeIndirectIndexed => 2
  | .absoluteIndirectLongJump | .directIndirectLong | .directIndirectLongIndexed => 3
  | _ => 0

def wrap : AddressingMode → Wrap
  | .direct | .directModify | .directX | .directXModify | .directY | .stackRelative => .bank
  | _ => .banks

def pointerAddress (mode : AddressingMode) (R : Registers) (operand : Nat) : Nat :=
  match mode with
  | .directIndexedIndirect => (R.direct.toNat + operand + R.x.toNat) % 0x10000
  | .directIndirect | .directIndirectIndexed | .directIndirectLong | .directIndirectLongIndexed =>
    (R.direct.toNat + operand) % 0x10000
  | .stackRelativeIndirectIndexed => (R.s.toNat + operand) % 0x10000
  | _ => 0

def effectiveAddress (mode : AddressingMode) (R : Registers) (operand pointer : Nat) : Nat :=
  let dataBank := R.dataBank.toNat * 0x10000
  match mode with
  | .absolute | .absoluteModify => dataBank + operand
  | .absoluteX | .absoluteXModify => (dataBank + operand + R.x.toNat) % 0x1000000
  | .absoluteY => (dataBank + operand + R.y.toNat) % 0x1000000
  | .absoluteLong => operand
  | .absoluteLongX => (operand + R.x.toNat) % 0x1000000
  | .direct | .directModify => (R.direct.toNat + operand) % 0x10000
  | .directX | .directXModify => (R.direct.toNat + operand + R.x.toNat) % 0x10000
  | .directY => (R.direct.toNat + operand + R.y.toNat) % 0x10000
  | .directIndexedIndirect | .directIndirect => dataBank + pointer
  | .directIndirectIndexed | .stackRelativeIndirectIndexed =>
    (dataBank + pointer + R.y.toNat) % 0x1000000
  | .directIndirectLong => pointer
  | .directIndirectLongIndexed => (pointer + R.y.toNat) % 0x1000000
  | .stackRelative => (R.s.toNat + operand) % 0x10000
  | _ => 0

def idleReads (mode : AddressingMode) (R : Registers) : Nat :=
  match mode with
  | .direct | .directModify | .directIndirect | .directIndirectIndexed | .directIndirectLong
  | .directIndirectLongIndexed => R.directReads
  | .directX | .directXModify | .directY | .directIndexedIndirect => R.directReads + 1
  | .stackRelative | .stackRelativeIndirectIndexed => 1
  | _ => 0

def dummyReads (mode : AddressingMode) (access : Access) (R : Registers) (operand pointer : Nat) :
    Nat :=
  match mode with
  | .absoluteX => R.indexReads access operand R.x
  | .absoluteY => R.indexReads access operand R.y
  | .directIndirectIndexed => R.indexReads access pointer R.y
  | .absoluteXModify | .stackRelativeIndirectIndexed => 1
  | _ => 0

def dummyAddress (mode : AddressingMode) (R : Registers) (operand pointer : Nat) : Nat :=
  let dataBank := R.dataBank.toNat * 0x10000
  match mode with
  | .absoluteX | .absoluteXModify => uncorrectedAddress (dataBank + operand) R.x.toNat
  | .absoluteY => uncorrectedAddress (dataBank + operand) R.y.toNat
  | .directIndirectIndexed => uncorrectedAddress (dataBank + pointer) R.y.toNat
  | .stackRelativeIndirectIndexed => (mode.pointerAddress R operand + 1) % 0x10000
  | _ => 0

end AddressingMode

structure Reading where
  operand : List UInt8
  idle : List UInt8
  pointer : List UInt8
  dummy : List UInt8

namespace Reading

structure Fits (reading : Reading) (mode : AddressingMode) (access : Access) (R : Registers) :
    Prop where
  operand : reading.operand.length = mode.operandLength
  idle : reading.idle.length = mode.idleReads R
  pointer : reading.pointer.length = mode.pointerLength
  dummy : reading.dummy.length =
    mode.dummyReads access R (littleEndian reading.operand) (littleEndian reading.pointer)

def target (reading : Reading) (mode : AddressingMode) (R : Registers) : Nat :=
  mode.effectiveAddress R (littleEndian reading.operand) (littleEndian reading.pointer)

def calls (reading : Reading) (mode : AddressingMode) (R : Registers) : List Event :=
  R.operandCalls reading.operand ++
    reading.idle.map (.fetch .program (R.advance mode.operandLength).programAddress ·) ++
    Event.fetches .data
      (fun i => .ofNat ((mode.pointerAddress R (littleEndian reading.operand) + i) % 0x10000))
      reading.pointer ++
    reading.dummy.map (.fetch .data (.ofNat (mode.dummyAddress R (littleEndian reading.operand)
      (littleEndian reading.pointer))) ·)

theorem calls_append (reading : Reading) (mode : AddressingMode) (R : Registers)
    (later : List Event) :
    reading.calls mode R ++ later =
      R.operandCalls reading.operand ++
        (reading.idle.map (.fetch .program (R.advance mode.operandLength).programAddress ·) ++
          (Event.fetches .data
            (fun i => .ofNat ((mode.pointerAddress R (littleEndian reading.operand) + i) % 0x10000))
            reading.pointer ++
            (reading.dummy.map (.fetch .data (.ofNat (mode.dummyAddress R
              (littleEndian reading.operand) (littleEndian reading.pointer))) ·) ++ later))) := by
  simp only [calls, List.append_assoc]

theorem target_lt {reading : Reading} {mode : AddressingMode} {access : Access}
    {R : Registers} (located : mode.isTransfer ∨ mode.isModify)
    (fits : reading.Fits mode access R) : reading.target mode R < mode.wrap.size := by
  have operand := littleEndian_lt reading.operand
  have pointer := littleEndian_lt reading.pointer
  have bank := R.dataBank.toNat_lt
  rw [fits.operand] at operand
  rw [fits.pointer] at pointer
  cases mode with
  | absolute | absoluteModify =>
    simp only [AddressingMode.operandLength] at operand
    simp only [target, AddressingMode.effectiveAddress, AddressingMode.wrap, Wrap.size]
    omega
  | absoluteLong => exact operand
  | directIndirectLong => exact pointer
  | directIndirect | directIndexedIndirect =>
    simp only [AddressingMode.pointerLength] at pointer
    simp only [target, AddressingMode.effectiveAddress, AddressingMode.wrap, Wrap.size]
    omega
  | absoluteX | absoluteXModify | absoluteY | absoluteLongX | direct | directModify | directX
  | directXModify | directY | directIndirectIndexed | directIndirectLongIndexed | stackRelative
  | stackRelativeIndirectIndexed => exact Nat.mod_lt _ (by decide)
  | _ => simp [AddressingMode.isTransfer, AddressingMode.isModify] at located

end Reading

end Microcode
