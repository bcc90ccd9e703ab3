import Microcode.Execution.Host

namespace Microcode.Bench

inductive Answer where
  | nothing
  | number (n : Nat)
  | flag (b : Bool)
  | text (s : String)
  | fault (cause : Fault)
  deriving DecidableEq

def Answer.fault? : Answer → Option Fault
  | .fault cause => some cause
  | _ => none

inductive BufferAction where
  -- Keeps the bytes held of a value, or sets both fields as they are.
  | hold (value : UInt32) (size : UInt8)
  | set (value : UInt32) (size : UInt8)
  | push (byte : UInt8)
  | clear
  | takeLowest
  | takeHighest
  | lowest
  | word
  | isEmpty
  | compare (value : UInt32) (size : UInt8)
  | text

def BufferAction.run (b : Buffer) : BufferAction → Answer × Buffer
  | .hold value size => (.nothing, .ofValue value size)
  | .set value size => (.nothing, ⟨value, size⟩)
  | .push byte =>
    match b.push byte with
    | .ok after => (.nothing, after)
    | .error cause => (.fault cause, b)
  | .clear => (.nothing, .empty)
  | .takeLowest =>
    let (byte, after) := b.takeLowest
    (.number byte.toNat, after)
  | .takeHighest =>
    match b.takeHighest with
    | (.ok byte, after) => (.number byte.toNat, after)
    | (.error cause, after) => (.fault cause, after)
  | .lowest => (.number b.lowest.toNat, b)
  | .word => (.number b.word.toNat, b)
  | .isEmpty => (.flag b.isEmpty, b)
  | .compare value size => (.flag (b == ⟨value, size⟩), b)
  | .text => (.text (toString b), b)

def BufferAction.runAll (b : Buffer) : List BufferAction → List (Answer × Buffer)
  | [] => []
  | action :: rest =>
    let (answer, after) := action.run b
    match answer with
    | .fault _ => [(answer, after)]
    | _ => (answer, after) :: runAll after rest

inductive Setting where
  | a (value : UInt16)
  | x (value : UInt16)
  | y (value : UInt16)
  | s (value : UInt16)
  | direct (value : UInt16)
  | pc (value : UInt16)
  | dataBank (value : UInt8)
  | programBank (value : UInt8)
  | indexWidth (value : Width)
  | dataAddress (value : UInt32)
  | incrementMask (value : UInt32)
  | uncorrected (value : UInt32)

def byte? (n : Nat) : Option UInt8 :=
  if n < 0x100 then some (.ofNat n) else none

def word? (n : Nat) : Option UInt16 :=
  if n < 0x10000 then some (.ofNat n) else none

def long? (n : Nat) : Option UInt32 :=
  if n < 0x100000000 then some (.ofNat n) else none

namespace Setting

-- No value is cut: one that does not fit its field sets nothing.
def ofField? (field : String) (value : Nat) : Option Setting :=
  match field with
  | "a" => .a <$> word? value
  | "x" => .x <$> word? value
  | "y" => .y <$> word? value
  | "s" => .s <$> word? value
  | "direct" => .direct <$> word? value
  | "pc" => .pc <$> word? value
  | "data_bank" => .dataBank <$> byte? value
  | "program_bank" => .programBank <$> byte? value
  | "index_width" => .indexWidth <$> Width.ofBits? value
  | "data_address" => .dataAddress <$> long? value
  | "increment_mask" => .incrementMask <$> long? value
  | "incorrect_data_address" => .uncorrected <$> long? value
  | _ => none

def apply (d : Datapath) : Setting → Datapath
  | .a value => { d with registers.a := value }
  | .x value => { d with registers.x := value }
  | .y value => { d with registers.y := value }
  | .s value => { d with registers.s := value }
  | .direct value => { d with registers.direct := value }
  | .pc value => { d with registers.pc := value }
  | .dataBank value => { d with registers.dataBank := value }
  | .programBank value => { d with registers.programBank := value }
  | .indexWidth value => { d with registers.indexWidth := value }
  | .dataAddress value => { d with dataAddress := value }
  | .incrementMask value => { d with incrementMask := value }
  | .uncorrected value => { d with uncorrected := value }

end Setting

inductive Action where
  | set (settings : List Setting)
  | instructionBuffer (action : BufferAction)
  | dataBuffer (action : BufferAction)
  | begin
  | aim (address mask : UInt32)
  | stepUp
  | stepDown
  | programAddress
  | skips

def Action.run (s : State) : Action → Answer × State
  | .set settings => (.nothing, s.withDatapath (settings.foldl Setting.apply s.toDatapath))
  | .instructionBuffer action =>
    let (answer, after) := action.run s.instructionBuffer
    (answer, { s with instructionBuffer := after })
  | .dataBuffer action =>
    let (answer, after) := action.run s.dataBuffer
    (answer, { s with dataBuffer := after })
  | .begin => (.nothing, s.beginInstruction)
  | .aim address mask => (.nothing, s.withDatapath (s.setDataAddress address mask))
  | .stepUp => (.nothing, s.withDatapath s.stepUp)
  | .stepDown => (.nothing, s.withDatapath s.stepDown)
  | .programAddress => (.number s.registers.programAddress.toNat, s)
  | .skips => (.flag s.skipNext, s)

end Microcode.Bench
