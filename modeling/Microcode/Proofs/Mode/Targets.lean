import Microcode.Bench.Reference
import Microcode.Proofs.Execution.Elision
import Microcode.Proofs.Mode.Control

namespace Microcode

namespace Event

def isIn (space : AddressSpace) : Event → Bool
  | .fetch found _ _ => found == space
  | .store found _ _ => found == space
  | .perform _ _ _ => false

@[simp] theorem isIn_fetch (space found : AddressSpace) (address : UInt32) (value : UInt8) :
    (Event.fetch found address value).isIn space = (found == space) := rfl

@[simp] theorem isIn_store (space found : AddressSpace) (address : UInt32) (value : UInt8) :
    (Event.store found address value).isIn space = (found == space) := rfl

@[simp] theorem filter_fetches (space found : AddressSpace) (address : Nat → UInt32)
    (bytes : List UInt8) :
    (fetches found address bytes).filter (·.isIn space) =
      if found = space then fetches found address bytes else [] := by
  have members : ∀ e ∈ fetches found address bytes, e.isIn space = (found == space) := by
    intro e member
    obtain ⟨at_, byte, rfl⟩ := mem_fetches found address bytes e member
    rfl
  split
  · rename_i same
    exact List.filter_eq_self.mpr fun e member => by simp [members e member, same]
  · rename_i apart
    exact List.filter_eq_nil_iff.mpr fun e member => by simp [members e member, apart]

end Event

namespace AddressingMode

def isControl : AddressingMode → Bool
  | .absoluteJump | .absoluteCall | .absoluteIndexedIndirectJump | .absoluteIndexedIndirectCall
  | .absoluteIndirectLongJump | .absoluteIndirectJump | .absoluteLongJump | .absoluteLongCall => true
  | _ => false

-- Where a control transfer finds a byte of its target that is no operand byte.
-- A pointer lies in bank zero, an indexed one in the program bank, and neither
-- leaves its bank.
def targetAddress (mode : AddressingMode) (R : Registers) (operand i : Nat) : Nat :=
  match mode with
  | .absoluteIndexedIndirectJump | .absoluteIndexedIndirectCall =>
    R.programBank.toNat * 0x10000 + (operand + R.x.toNat + i) % 0x10000
  | .absoluteIndirectJump | .absoluteIndirectLongJump => (operand + i) % 0x10000
  | _ => 0

-- What a control transfer hands the executor, by the registers at the start of
-- its pass and the calls made since. Calls of the stack may lie anywhere among
-- the others.
structure Hands (mode : AddressingMode) (R : Registers) (operand pointer : List UInt8)
    (calls : List Event) (s : State) : Prop where
  operandLength : operand.length = mode.operandLength
  pointerLength : pointer.length = mode.pointerLength
  programCalls : ∃ idle : List UInt8, idle.length ≤ 1 ∧
    calls.filter (·.isIn .program) = R.operandCalls operand ++
      idle.map (.fetch .program (R.advance (mode.operandLength - 1)).programAddress ·)
  dataCalls : calls.filter (·.isIn .data) = Event.fetches .data
    (fun i => .ofNat (mode.targetAddress R (littleEndian operand) i)) pointer
  instructionBuffer : s.instructionBuffer = .ofBytes operand
  dataBuffer : s.dataBuffer = .ofBytes (if mode = .absoluteLongJump then operand else pointer)

theorem program_of_isControl {mode : AddressingMode} (control : mode.isControl) (one two : Access)
    (narrow wide : Width) : mode.program one narrow = mode.program two wide := by
  cases mode <;> first | rfl | cases control

end AddressingMode

@[simp] theorem Registers.filter_operandCalls (R : Registers) (bytes : List UInt8)
    (space : AddressSpace) :
    (R.operandCalls bytes).filter (·.isIn space) =
      if .program = space then R.operandCalls bytes else [] :=
  Event.filter_fetches ..

theorem Wrap.bank_after (bank n i : Nat) :
    Wrap.bank.after (bank * 0x10000 + n % 0x10000) i = bank * 0x10000 + (n + i) % 0x10000 := by
  simp only [after, size]
  omega

namespace Yields

variable {operation : Operation} {mode : AddressingMode} {access : Access} {width : Width}
  {R : Registers} {A M U : UInt32}

theorem hands (control : mode.isControl) :
    Yields operation width (mode.prelude access width) (.holding R [] [] A M U false)
      fun calls s => ∃ operand pointer, mode.Hands R operand pointer calls s := by
  rw [← List.append_nil (mode.prelude access width)]
  cases mode with
  | absoluteJump =>
    refine absoluteJump fun operand two => .nil ⟨operand, [], two, rfl, ⟨[], ?_⟩, ?_, rfl, rfl⟩
    · simp
    · simp [Event.fetches]
  | absoluteCall =>
    refine absoluteCall fun operand idle two =>
      .nil ⟨operand, [], two, rfl, ⟨[idle], ?_⟩, ?_, rfl, rfl⟩
    · simp [AddressingMode.operandLength]
    · simp [Event.fetches]
  | absoluteIndexedIndirectJump =>
    refine absoluteIndexedIndirectJump fun operand idle pointer two asked =>
      .nil ⟨operand, pointer, two, asked, ⟨[idle], ?_⟩, ?_, rfl, rfl⟩
    · simp [AddressingMode.operandLength]
    · simp [AddressingMode.targetAddress, Wrap.bank_after]
  | absoluteIndexedIndirectCall =>
    refine absoluteIndexedIndirectCall fun low high idle pointer asked =>
      .nil ⟨[low, high], pointer, rfl, asked, ⟨[idle], ?_⟩, ?_, rfl, rfl⟩
    · simp [AddressingMode.operandLength, Registers.operandCalls_cons, Registers.operandCalls_nil]
    · simp [AddressingMode.targetAddress, Wrap.bank_after]
  | absoluteIndirectLongJump =>
    refine absoluteIndirectLongJump fun operand pointer two asked =>
      .nil ⟨operand, pointer, two, asked, ⟨[], ?_⟩, ?_, rfl, rfl⟩
    · simp
    · simp [AddressingMode.targetAddress]
  | absoluteIndirectJump =>
    refine absoluteIndirectJump fun operand pointer two asked =>
      .nil ⟨operand, pointer, two, asked, ⟨[], ?_⟩, ?_, rfl, rfl⟩
    · simp
    · simp [AddressingMode.targetAddress]
  | absoluteLongJump =>
    refine absoluteLongJump fun operand three => .nil ⟨operand, [], three, rfl, ⟨[], ?_⟩, ?_, rfl, rfl⟩
    · simp
    · simp [Event.fetches]
  | absoluteLongCall =>
    refine absoluteLongCall fun low middle idle bank =>
      .nil ⟨[low, middle, bank], [], rfl, rfl, ⟨[], ?_⟩, ?_, rfl, rfl⟩
    · simp [Registers.operandCalls_cons, Registers.operandCalls_nil, Registers.advance_advance]
    · simp [Event.fetches]
  | _ => cases control

end Yields

section

variable {β ε : Type} [Bus β] [Executor ε]

theorem Table.Holds.pass_of_calls {t : Table} {a : Assignment} {width : Width} {offset steps : Nat}
    {m : Machine β ε} {called : Run β ε} (holds : t.Holds a width offset)
    (calls : t.Calls a.opcode width m steps called) :
    ∃ first start, t.PassBegins a.opcode width m first start ∧
      t.InPass a.opcode width m first steps ∧
      Leads a.operation width (a.mode.prelude a.operation.access width) start called := by
  obtain ⟨position, meets⟩ := (t.calls_iff a.opcode width m steps called).mp calls
  obtain ⟨first, start, behind, ahead, begins, split, leads, rfl, rfl⟩ :=
    holds.pass_of_meets meets (by simp)
  have inside := holds.inPass_of_leads begins split leads
  obtain ⟨rfl, -⟩ := AddressingMode.parts_of_split split
  exact ⟨first, start, begins, inside, leads⟩

structure Table.TransfersControl (t : Table) (a : Assignment) (width : Width) (m : Machine β ε) :
    Prop where
  handed : ∀ steps called, t.Calls a.opcode width m steps called →
    ∃ first start operand pointer calls, t.PassBegins a.opcode width m first start ∧
      t.InPass a.opcode width m first steps ∧
      called.events.toList = start.events.toList ++ calls ∧ (∀ e ∈ calls, e.isBusCall) ∧
      a.mode.Hands start.state.registers operand pointer calls called.state
  reached : ∀ first start, t.PassBegins a.opcode width m first start →
    ∃ steps called, t.Calls a.opcode width m steps called ∧ t.InPass a.opcode width m first steps
  uniform : ∀ access other, a.mode.program access other = a.mode.program a.operation.access width

theorem Table.transfers_control {assignments : List Assignment} {t : Table}
    (built : Table.build assignments = .ok t) {a : Assignment} (assigned : a ∈ assignments)
    (control : a.mode.isControl) (width : Width) (m : Machine β ε) :
    t.TransfersControl a width m := by
  obtain ⟨offset, holds⟩ := holds_of_build built assigned width
  have hands : ∀ first start, t.PassBegins a.opcode width m first start →
      ∃ called calls operand pointer,
        Leads a.operation width (a.mode.prelude a.operation.access width) start called ∧
        called.events.toList = start.events.toList ++ calls ∧ (∀ e ∈ calls, e.isBusCall) ∧
        a.mode.Hands start.state.registers operand pointer calls called.state := by
    intro first start begins
    obtain ⟨called, calls, leads, -, events, -, bus, operand, pointer, hands⟩ :=
      (Yields.hands control).run start (holds.fresh_of_passBegins begins)
    exact ⟨called, calls, operand, pointer, leads, events, bus, hands⟩
  refine ⟨?_, ?_, fun access other => AddressingMode.program_of_isControl control ..⟩
  · intro steps called calls
    obtain ⟨first, start, begins, inside, leads⟩ := holds.pass_of_calls calls
    obtain ⟨found, made, operand, pointer, again, handed⟩ := hands first start begins
    cases again.functional leads
    exact ⟨first, start, operand, pointer, made, begins, inside, handed⟩
  · intro first start begins
    obtain ⟨called, -, -, -, leads, -⟩ := hands first start begins
    have split := a.mode.program_eq a.operation.access width
    exact ⟨_, called, holds.calls begins split leads, holds.inPass_of_leads begins split leads⟩

theorem Table.transfers_control_wrapped :
    let a : Assignment := ⟨0x7C, .absoluteIndexedIndirectJump, .jmpIndirect⟩
    let t := ([a].foldl Builder.accept {}).table
    let answers : List (UInt32 × UInt8) :=
      [(0x128000, 0xFD), (0x128001, 0xFF), (0x12FFFF, 0x34), (0x120000, 0x56)]
    let m : Machine FlatMemory Bench.Reference :=
      { state := .ofRegisters { x := 2, programBank := 0x12, pc := 0x8000 }
        bus := ⟨fun address => (answers.lookup address).getD 0⟩, executor := {} }
    Table.build [a] = .ok t ∧ a.mode.isControl ∧ t.TransfersControl a .sixteen m ∧
      (t.dispatch 20 0x7C .sixteen m).2.state.registers.pc = 0x5634 := by
  intro a t answers m
  have built : Table.build [a] = .ok t := build_of_ascending (List.pairwise_singleton _ _)
  exact ⟨built, rfl, transfers_control built (by simp) rfl .sixteen m, by decide +kernel⟩

end

end Microcode
