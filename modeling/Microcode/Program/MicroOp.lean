import Microcode.Instruction.Width

namespace Microcode

inductive Index where
  | x
  | y
  deriving DecidableEq

def Index.name : Index → String
  | .x => "X"
  | .y => "Y"

inductive AddressSpace where
  | program
  | data
  | stack
  deriving DecidableEq

def AddressSpace.name : AddressSpace → String
  | .program => "Program"
  | .data => "Data"
  | .stack => "Stack"

-- One fetch or one store. An `idle` cycle reads and discards; `rewriteData`
-- stores a byte without consuming it.
inductive BusCycle where
  | fetchOperand
  | fetchLastOperand
  | idleProgram
  | fetchData
  | fetchDataUp
  | idleData
  | idleUncorrected
  | storeData
  | storeDataUp
  | storeDataDown
  | rewriteData
  | push
  | idleStack
  | fetchSource
  | storeDestination
  | idleDestination
  deriving DecidableEq

namespace BusCycle

def all : List BusCycle :=
  [.fetchOperand, .fetchLastOperand, .idleProgram, .fetchData, .fetchDataUp, .idleData,
    .idleUncorrected, .storeData, .storeDataUp, .storeDataDown, .rewriteData, .push, .idleStack,
    .fetchSource, .storeDestination, .idleDestination]

def name : BusCycle → String
  | .fetchOperand => "FetchIncrementPc"
  | .fetchLastOperand => "FetchPc"
  | .idleProgram => "FetchPcThrowaway"
  | .fetchData => "FetchData"
  | .fetchDataUp => "FetchIncrementData"
  | .idleData => "FetchDataThrowaway"
  | .idleUncorrected => "FetchIncorrectDataAddress"
  | .storeData => "StoreData"
  | .storeDataUp => "StoreIncrementData"
  | .storeDataDown => "StoreDecrementData"
  | .rewriteData => "StoreDataThrowaway"
  | .push => "Push"
  | .idleStack => "AccessStack"
  | .fetchSource => "FetchBlockX"
  | .storeDestination => "StoreBlockY"
  | .idleDestination => "FetchBlockY"

def space : BusCycle → AddressSpace
  | .fetchOperand | .fetchLastOperand | .idleProgram => .program
  | .push | .idleStack => .stack
  | _ => .data

def isStore : BusCycle → Bool
  | .storeData | .storeDataUp | .storeDataDown | .rewriteData | .push | .storeDestination => true
  | _ => false

def isIdle : BusCycle → Bool
  | .idleProgram | .idleData | .idleUncorrected | .idleStack | .idleDestination => true
  | _ => false

end BusCycle

-- Computes the data address, and for indexed modes the uncorrected address of
-- the dummy read. `elide` lets the dummy read go where indexing stays on the
-- page and the index registers are 8 bits wide.
inductive Construction where
  | absolute
  | absoluteBankZero
  | absoluteLong
  | absoluteLongX
  | absoluteIndexed (index : Index) (elide : Bool)
  | absoluteIndexedIndirect
  | direct
  | directIndexed (index : Index)
  | directIndexedIndirect
  | directIndirect
  | directIndirectIndexed (elide : Bool)
  | directIndirectLong
  | directIndirectLongIndexed
  | stackRelative
  | stackRelativeIndirectIndexed
  deriving DecidableEq

namespace Construction

def all : List Construction :=
  [.absolute, .absoluteBankZero, .absoluteLong, .absoluteLongX, .absoluteIndexed .x true,
    .absoluteIndexed .x false, .absoluteIndexed .y true, .absoluteIndexed .y false,
    .absoluteIndexedIndirect, .direct, .directIndexed .x, .directIndexed .y,
    .directIndexedIndirect, .directIndirect, .directIndirectIndexed true,
    .directIndirectIndexed false, .directIndirectLong, .directIndirectLongIndexed, .stackRelative,
    .stackRelativeIndirectIndexed]

def name : Construction → String
  | .absolute => "ConstructAbsolute"
  | .absoluteBankZero => "ConstructAbsoluteBankZero"
  | .absoluteLong => "ConstructAbsoluteLong"
  | .absoluteLongX => "ConstructAbsoluteLongX"
  | .absoluteIndexed index elide =>
    "ConstructAbsoluteIndexed \x7b index: " ++ index.name ++ ", elide_dummy_read: " ++ toString elide ++
      " \x7d"
  | .absoluteIndexedIndirect => "ConstructAbsoluteIndexedIndirect"
  | .direct => "ConstructDirect"
  | .directIndexed index => "ConstructDirectIndexed(" ++ index.name ++ ")"
  | .directIndexedIndirect => "ConstructDirectIndexedIndirect"
  | .directIndirect => "ConstructDirectIndirect"
  | .directIndirectIndexed elide =>
    "ConstructDirectIndirectIndexed \x7b elide_dummy_read: " ++ toString elide ++ " \x7d"
  | .directIndirectLong => "ConstructDirectIndirectLong"
  | .directIndirectLongIndexed => "ConstructDirectIndirectLongIndexed"
  | .stackRelative => "ConstructStackRelative"
  | .stackRelativeIndirectIndexed => "ConstructStackRelativeIndirectIndexed"

end Construction

inductive Copy where
  | pcToData
  | programBankToData
  | instructionToData
  | accumulatorToData
  | dataToAccumulator
  deriving DecidableEq

namespace Copy

def all : List Copy :=
  [.pcToData, .programBankToData, .instructionToData, .accumulatorToData, .dataToAccumulator]

def name : Copy → String
  | .pcToData => "CopyPcToData"
  | .programBankToData => "CopyPbrToData"
  | .instructionToData => "CopyInstructionToData"
  | .accumulatorToData => "CopyAToData"
  | .dataToAccumulator => "CopyDataToA"

end Copy

-- One step of a program. Constructions and copies are internal: they take no
-- bus cycle. `endOfProgram` closes every program in a store and is part of none.
inductive MicroOp where
  | cycle (cycle : BusCycle)
  | construct (construction : Construction)
  | copy (copy : Copy)
  | perform
  | endOfProgram
  deriving DecidableEq

namespace MicroOp

def all : List MicroOp :=
  BusCycle.all.map .cycle ++ Construction.all.map .construct ++ Copy.all.map .copy ++
    [.perform, .endOfProgram]

def isBusCycle : MicroOp → Bool
  | .cycle _ => true
  | _ => false

def isInternal : MicroOp → Bool
  | .construct _ | .copy _ => true
  | _ => false

def isConstruction : MicroOp → Bool
  | .construct _ => true
  | _ => false

def listing : MicroOp → String
  | .cycle c => c.name
  | .construct c => "[" ++ c.name ++ "]"
  | .copy c => "[" ++ c.name ++ "]"
  | .perform => "[Perform]"
  | .endOfProgram => "[MoveToNextProgram]"

def kindListing : MicroOp → String
  | .cycle c => "Cycle(" ++ c.name ++ ")"
  | .construct c => "Internal(" ++ c.name ++ ")"
  | .copy c => "Internal(" ++ c.name ++ ")"
  | .perform => "Perform"
  | .endOfProgram => "MoveToNextProgram"

instance : ToString MicroOp where
  toString := listing

def ofListing? (text : String) : Option MicroOp :=
  all.find? (·.listing == text)

theorem mem_all (u : MicroOp) : u ∈ all := by
  rcases u with c | c | c | _ | _
  · cases c <;> decide
  · rcases c with _ | _ | _ | _ | ⟨i, e⟩ | _ | _ | i | _ | _ | e | _ | _ | _ | _ <;>
      first | decide | (cases i <;> cases e <;> decide) | (cases i <;> decide) | (cases e <;> decide)
  · cases c <;> decide
  · decide
  · decide

end MicroOp

abbrev Program := List MicroOp

namespace Program

def busCycles (p : Program) : Nat :=
  p.countP (·.isBusCycle)

def lastConstruction? (p : Program) : Option Nat :=
  (p.zipIdx.filter (·.1.isConstruction)).getLast?.map (·.2)

end Program

end Microcode
