import Microcode.Instruction.AddressingMode
import Microcode.Program.Tail

namespace Microcode.AddressingMode

open Program (transfer modify)

def indexedHead (index : Index) (elide : Bool) : Program :=
  [.cycle .fetchOperand, .cycle .fetchOperand, .construct (.absoluteIndexed index elide),
    .cycle .idleUncorrected]

def absoluteHead : Program :=
  [.cycle .fetchOperand, .cycle .fetchOperand, .construct .absolute]

def longHead (construction : Construction) : Program :=
  [.cycle .fetchOperand, .cycle .fetchOperand, .cycle .fetchOperand, .construct construction]

def directHead : Program :=
  [.cycle .fetchOperand, .construct .direct, .cycle .idleProgram]

def directIndexedHead (construction : Construction) : Program :=
  [.cycle .fetchOperand, .construct construction, .cycle .idleProgram, .cycle .idleProgram]

def directPointer : Program :=
  directHead ++ [.cycle .fetchDataUp, .cycle .fetchData]

def directLongPointer : Program :=
  directHead ++ [.cycle .fetchDataUp, .cycle .fetchDataUp, .cycle .fetchData]

def stackHead : Program :=
  [.cycle .fetchOperand, .construct .stackRelative, .cycle .idleProgram]

-- The program of a mode. The opcode has been fetched, PC stands on the first
-- operand byte and both buffers are empty. Control transfers leave PC on the
-- last operand byte: that is the address a call pushes.
def program (mode : AddressingMode) (access : Access) (width : Width) : Program :=
  match mode with
  | .absolute => absoluteHead ++ transfer access width
  | .absoluteModify => absoluteHead ++ modify width
  | .absoluteJump =>
    [.cycle .fetchOperand, .cycle .fetchLastOperand, .construct .absolute, .perform]
  | .absoluteCall =>
    [.cycle .fetchOperand, .cycle .fetchLastOperand, .cycle .idleProgram, .construct .absolute,
      .perform, .cycle .push, .cycle .push]
  | .absoluteIndexedIndirectJump =>
    [.cycle .fetchOperand, .cycle .fetchLastOperand, .cycle .idleProgram,
      .construct .absoluteIndexedIndirect, .cycle .fetchDataUp, .cycle .fetchData, .perform]
  | .absoluteIndexedIndirectCall =>
    [.cycle .fetchOperand, .copy .pcToData, .cycle .push, .cycle .push, .cycle .fetchLastOperand,
      .cycle .idleProgram, .construct .absoluteIndexedIndirect, .cycle .fetchDataUp,
      .cycle .fetchData, .perform]
  | .absoluteIndirectLongJump =>
    [.cycle .fetchOperand, .cycle .fetchLastOperand, .construct .absoluteBankZero,
      .cycle .fetchDataUp, .cycle .fetchDataUp, .cycle .fetchData, .perform]
  | .absoluteIndirectJump =>
    [.cycle .fetchOperand, .cycle .fetchLastOperand, .construct .absoluteBankZero,
      .cycle .fetchDataUp, .cycle .fetchData, .perform]
  | .absoluteLong => longHead .absoluteLong ++ transfer access width
  | .absoluteLongJump =>
    [.cycle .fetchOperand, .cycle .fetchOperand, .cycle .fetchLastOperand,
      .construct .absoluteLong, .copy .instructionToData, .perform]
  | .absoluteLongCall =>
    [.cycle .fetchOperand, .cycle .fetchOperand, .copy .programBankToData, .cycle .push,
      .cycle .idleStack, .cycle .fetchLastOperand, .construct .absoluteLong, .perform,
      .cycle .push, .cycle .push]
  | .absoluteLongX => longHead .absoluteLongX ++ transfer access width
  | .absoluteX => indexedHead .x (access == .read) ++ transfer access width
  | .absoluteXModify => indexedHead .x false ++ modify width
  | .absoluteY => indexedHead .y (access == .read) ++ transfer access width
  | .accumulator =>
    [.cycle .idleProgram, .copy .accumulatorToData, .perform, .copy .dataToAccumulator]
  | .blockMove =>
    [.cycle .fetchOperand, .cycle .fetchOperand, .cycle .fetchSource, .cycle .storeDestination,
      .cycle .idleDestination, .cycle .idleDestination, .perform]
  | .direct => directHead ++ transfer access width
  | .directModify => directHead ++ modify width
  | .directX => directIndexedHead (.directIndexed .x) ++ transfer access width
  | .directXModify => directIndexedHead (.directIndexed .x) ++ modify width
  | .directY => directIndexedHead (.directIndexed .y) ++ transfer access width
  | .directIndexedIndirect =>
    directIndexedHead .directIndexedIndirect ++
      [.cycle .fetchDataUp, .cycle .fetchData, .construct .directIndirect] ++
        transfer access width
  | .directIndirect => directPointer ++ .construct .directIndirect :: transfer access width
  | .directIndirectIndexed =>
    directPointer ++
      [.construct (.directIndirectIndexed (access == .read)), .cycle .idleUncorrected] ++
        transfer access width
  | .directIndirectLong =>
    directLongPointer ++ .construct .directIndirectLong :: transfer access width
  | .directIndirectLongIndexed =>
    directLongPointer ++ .construct .directIndirectLongIndexed :: transfer access width
  | .stackRelative => stackHead ++ transfer access width
  | .stackRelativeIndirectIndexed =>
    stackHead ++
      [.cycle .fetchDataUp, .cycle .fetchData, .cycle .idleData,
        .construct .stackRelativeIndirectIndexed] ++ transfer access width

def ignoresAccess : AddressingMode → Bool
  | .absoluteModify | .absoluteJump | .absoluteCall | .absoluteIndexedIndirectJump
  | .absoluteIndexedIndirectCall | .absoluteIndirectLongJump | .absoluteIndirectJump
  | .absoluteLongJump | .absoluteLongCall | .absoluteXModify | .accumulator | .blockMove
  | .directModify | .directXModify => true
  | _ => false

theorem ignoresAccess_iff (mode : AddressingMode) :
    mode.ignoresAccess = true ↔ ∀ width, mode.program .read width = mode.program .write width := by
  cases mode <;> decide

theorem endOfProgram_not_mem (mode : AddressingMode) (access : Access) (width : Width) :
    MicroOp.endOfProgram ∉ mode.program access width := by
  cases mode <;> cases access <;> cases width <;> decide

end Microcode.AddressingMode
