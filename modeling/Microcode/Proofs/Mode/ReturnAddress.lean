import Microcode.Bench.Reference
import Microcode.Proofs.Execution.FlatMemory
import Microcode.Proofs.Execution.Steps
import Microcode.Proofs.Mode.Control
import Microcode.Proofs.Mode.Result

namespace Microcode

inductive IsCall : AddressingMode → Operation → Prop where
  | absolute : IsCall .absoluteCall .jsr
  | long : IsCall .absoluteLongCall .jsl
  | indexed : IsCall .absoluteIndexedIndirectCall .jmpIndirect

theorem IsCall.isBlockMove {mode : AddressingMode} {operation : Operation}
    (call : IsCall mode operation) : operation.isBlockMove = false := by
  cases call with
  | absolute | long | indexed => rfl

theorem IsCall.operation_eq {operation : Operation}
    (call : IsCall .absoluteIndexedIndirectCall operation) : operation = .jmpIndirect := by
  cases call
  rfl

namespace AddressingMode

def returnBytes (mode : AddressingMode) (R : Registers) : List UInt8 :=
  (wordBytes (R.pc + .ofNat (mode.operandLength - 1))).reverse

theorem returnBytes_indexed (R : Registers) :
    absoluteIndexedIndirectCall.returnBytes R = (wordBytes (R.pc + 1)).reverse := rfl

def pushedEarly (mode : AddressingMode) (R : Registers) : List UInt8 :=
  match mode with
  | .absoluteIndexedIndirectCall => mode.returnBytes R
  | .absoluteLongCall => [R.programBank]
  | _ => []

def pushedLate (mode : AddressingMode) (R : Registers) : List UInt8 :=
  match mode with
  | .absoluteCall | .absoluteLongCall => mode.returnBytes R
  | _ => []

def opening : AddressingMode → Program
  | .absoluteCall => [.cycle .fetchOperand]
  | .absoluteIndexedIndirectCall =>
    [.cycle .fetchOperand, .copy .pcToData, .cycle .push, .cycle .push]
  | .absoluteLongCall =>
    [.cycle .fetchOperand, .cycle .fetchOperand, .copy .programBankToData, .cycle .push,
      .cycle .idleStack]
  | _ => []

theorem program_of_isCall {mode : AddressingMode} {operation : Operation}
    (call : IsCall mode operation) (access : Access) (width : Width) :
    ∃ rest, mode.program access width = mode.opening ++ .cycle .fetchLastOperand :: rest := by
  cases call with
  | absolute | long | indexed => exact ⟨_, rfl⟩

end AddressingMode

@[simp] theorem Event.isStore_fetch (space : AddressSpace) (address : UInt32) (value : UInt8) :
    (Event.fetch space address value).isStore = false := rfl

@[simp] theorem Event.isStore_store (space : AddressSpace) (address : UInt32) (value : UInt8) :
    (Event.store space address value).isStore = true := rfl

@[simp] theorem Event.filter_isStore_fetches (space : AddressSpace) (address : Nat → UInt32)
    (bytes : List UInt8) : (fetches space address bytes).filter (·.isStore) = [] := by
  refine List.filter_eq_nil_iff.mpr ?_
  intro e member
  obtain ⟨at_, byte, rfl⟩ := mem_fetches space address bytes e member
  simp

@[simp] theorem Registers.filter_isStore_operandCalls (R : Registers) (bytes : List UInt8) :
    (R.operandCalls bytes).filter (·.isStore) = [] :=
  Event.filter_isStore_fetches ..

namespace Registers

def pushes (R : Registers) (bytes : List UInt8) : List Event :=
  Event.stores .stack (fun i => (R.s - .ofNat i).toUInt32) bytes

theorem pushes_append (R low : Registers) (one two : List UInt8) (below : low.s = R.s - .ofNat one.length) :
    R.pushes (one ++ two) = R.pushes one ++ low.pushes two := by
  simp only [pushes, Event.stores, List.mapIdx_append, below, UInt16.ofNat_add]
  congr 2
  funext i byte
  congr 2
  grind

theorem below_word (s : UInt16) : s - 1 - 1 = s - .ofNat 2 := by
  grind

theorem pushes_byte (R : Registers) (byte : UInt8) :
    R.pushes [byte] = [.store .stack R.s.toUInt32 byte] := by
  simp [pushes, Event.stores]

theorem pushes_word (R : Registers) (word : UInt16) :
    R.pushes (wordBytes word).reverse =
      [.store .stack R.s.toUInt32 (word >>> 8).toUInt8, .store .stack (R.s - 1).toUInt32 word.toUInt8] := by
  have top : R.s - .ofNat 0 = R.s := UInt16.sub_zero _
  simp only [pushes, Event.stores, wordBytes, List.reverse_cons, List.reverse_nil, List.nil_append,
    List.cons_append, List.mapIdx_cons, List.mapIdx_nil, top]
  rfl

structure Pushed (R : Registers) (bytes : List UInt8) (calls : List Event) (s : State) : Prop where
  stores : calls.filter (·.isStore) = R.pushes bytes
  stack : s.registers.s = R.s - .ofNat bytes.length

namespace Pushed

variable {R low : Registers} {one two : List UInt8} {calls later : List Event} {s called : State}

theorem append (first : R.Pushed one calls called) (second : low.Pushed two later s)
    (below : low.s = called.registers.s) : R.Pushed (one ++ two) (calls ++ later) s := by
  have gap : low.s = R.s - .ofNat one.length := below.trans first.stack
  constructor
  · rw [List.filter_append, first.stores, second.stores, R.pushes_append low one two gap]
  · rw [second.stack, gap, List.length_append, UInt16.ofNat_add]
    grind

end Pushed

end Registers

-- An executor that leaves the offset PC, as it finds it, to be pushed, and the
-- stack pointer alone. An indexed call has pushed it by itself.
structure LeavesReturn (ε : Type) [Executor ε] (operation : Operation) (width : Width) : Prop where
  stack : ∀ (e : ε) (s : State),
    (Executor.perform e operation width s).datapath.registers.s = s.registers.s
  word : operation = .jsr ∨ operation = .jsl → ∀ (e : ε) (s : State),
    (Executor.perform e operation width s).datapath.dataBuffer = .ofValue s.registers.pc.toUInt32 2

namespace Yields

variable {operation performed : Operation} {mode : AddressingMode} {access : Access} {width : Width}
  {R : Registers} {A M U : UInt32}

theorem pushWord {s : State} {word : UInt16} (clear : s.skipNext = false)
    (held : s.dataBuffer = .ofValue word.toUInt32 2) :
    Yields operation width [.cycle .push, .cycle .push] s
      fun calls after => s.registers.Pushed (wordBytes word).reverse calls after := by
  rw [Buffer.ofValue_word] at held
  refine pushHeld [_] clear held (by simp) ?_
  refine pushHeld [] clear rfl (by simp) (.nil ⟨?_, ?_⟩)
  · rw [Registers.pushes_word]
    rfl
  · exact Registers.below_word s.registers.s

theorem opening (call : IsCall mode performed) :
    Yields operation width mode.opening (.holding R [] [] A M U false)
      fun calls s => R.Pushed (mode.pushedEarly R) calls s := by
  cases call with
  | absolute => exact fetchOperand (by decide) fun low => .nil ⟨rfl, (UInt16.sub_zero _).symm⟩
  | long =>
    refine longCallOpening fun low middle idle => .nil ⟨?_, rfl⟩
    simp [AddressingMode.pushedEarly, Registers.pushes_byte, List.filter_cons]
  | indexed =>
    refine indexedCallOpening fun low => .nil ⟨?_, Registers.below_word R.s⟩
    rw [AddressingMode.pushedEarly, AddressingMode.returnBytes_indexed, Registers.pushes_word]
    rfl

theorem pushesEarly (call : IsCall mode performed) :
    Yields operation width (mode.prelude access width) (.holding R [] [] A M U false)
      fun calls s => R.Pushed (mode.pushedEarly R) calls s ∧
        s.registers.pc = R.pc + .ofNat (mode.operandLength - 1) := by
  rw [← List.append_nil (mode.prelude access width)]
  cases call with
  | absolute =>
    refine absoluteCall fun operand idle two => .nil ⟨⟨?_, (UInt16.sub_zero _).symm⟩, rfl⟩
    simp
    rfl
  | long =>
    refine absoluteLongCall fun low middle idle bank => .nil ⟨⟨?_, rfl⟩, rfl⟩
    simp [AddressingMode.pushedEarly, Registers.pushes_byte, List.filter_cons]
  | indexed =>
    refine absoluteIndexedIndirectCall fun low high idle pointer two =>
      .nil ⟨⟨?_, Registers.below_word R.s⟩, rfl⟩
    rw [AddressingMode.pushedEarly, AddressingMode.returnBytes_indexed, Registers.pushes_word]
    simp [List.filter_cons]

theorem pushesLate (call : IsCall mode operation) {s : State} (clear : s.skipNext = false)
    (held : operation = .jsr ∨ operation = .jsl →
      s.dataBuffer = .ofValue (R.pc + .ofNat (mode.operandLength - 1)).toUInt32 2) :
    Yields operation width (mode.finale access width) s
      fun calls after => s.registers.Pushed (mode.pushedLate R) calls after := by
  cases call with
  | absolute => exact pushWord clear (held (.inl rfl))
  | long => exact pushWord clear (held (.inr rfl))
  | indexed => exact .nil ⟨rfl, (UInt16.sub_zero _).symm⟩

end Yields

section

variable {β ε : Type} [Bus β] [Executor ε]

-- What a call pushes. Its first pushes are made before the last operand byte
-- comes, whoever the executor is, and an indexed call makes no others.
structure Table.PushesReturn (t : Table) (a : Assignment) (width : Width) (m : Machine β ε) : Prop where
  early : ∃ steps position r,
    t.Meets a.opcode width m steps position (.cycle .fetchLastOperand) r ∧
      m.state.registers.Pushed (a.mode.pushedEarly m.state.registers) r.events.toList r.state
  indexed : a.mode = .absoluteIndexedIndirectCall → ∀ limit,
    (a.mode.program a.operation.access width).length < limit →
      ∃ r, t.dispatch limit a.opcode width m = (.completed, r) ∧
        r.events.toList.filter (·.isStore) =
          m.state.registers.pushes (a.mode.returnBytes m.state.registers)
  whole : LeavesReturn ε a.operation width → ∀ limit,
    (a.mode.program a.operation.access width).length < limit →
      ∃ r, t.dispatch limit a.opcode width m = (.completed, r) ∧
        m.state.registers.Pushed
          (a.mode.pushedEarly m.state.registers ++ a.mode.pushedLate m.state.registers)
          r.events.toList r.state

theorem Table.pushes_return {assignments : List Assignment} {t : Table}
    (built : Table.build assignments = .ok t) {a : Assignment} (assigned : a ∈ assignments)
    (call : IsCall a.mode a.operation) (width : Width) (m : Machine β ε) :
    t.PushesReturn a width m := by
  obtain ⟨offset, holds⟩ := holds_of_build built assigned width
  have begins := holds.passBegins_first m
  have fresh := m.state.beginInstruction_fresh
  have split := a.mode.program_eq a.operation.access width
  have single := holds.singlePass (m := m) call.isBlockMove
  obtain ⟨called, calls, leads, -, events, -, -, early, pc⟩ := (Yields.pushesEarly call).run m.begin fresh
  have once : ¬ called.repeats a.operation width := holds.not_repeats single split leads
  have clear := skipNext_behind_call a.operation fresh split leads
  rw [m.toList_events_begin, List.nil_append] at events
  refine ⟨?_, ?_, ?_⟩
  · obtain ⟨rest, parts⟩ := AddressingMode.program_of_isCall call a.operation.access width
    obtain ⟨r, made, front, -, opened, -, -, pushed⟩ := (Yields.opening call).run m.begin fresh
    rw [m.toList_events_begin, List.nil_append] at opened
    refine ⟨_, _, r, ⟨holds.reach begins parts front, holds.placed.read parts⟩, ?_⟩
    rw [opened]
    exact pushed
  · intro indexed limit enough
    have same : a.operation = .jmpIndirect := (indexed ▸ call).operation_eq
    obtain ⟨r, later, ended, after, late⟩ := holds.completes_of_yields begins split leads once
      (Yields.pushesLate (R := m.state.registers) call clear (by simp [same])) (by simpa using enough)
    have quiet : later.filter (·.isStore) = [] := by
      rw [late.stores, indexed]
      rfl
    refine ⟨r, ended, ?_⟩
    rw [after, events, List.filter_append, early.stores, List.filter_cons, quiet, indexed]
    exact List.append_nil _
  · intro leaves limit enough
    have held : a.operation = .jsr ∨ a.operation = .jsl →
        (called.afterCall a.operation width).state.dataBuffer =
          .ofValue (m.state.registers.pc + .ofNat (a.mode.operandLength - 1)).toUInt32 2 := by
      intro pushed
      have left := leaves.word pushed called.executor called.state
      rw [pc] at left
      exact left
    obtain ⟨r, later, ended, after, late⟩ := holds.completes_of_yields begins split leads once
      (Yields.pushesLate (R := m.state.registers) call clear held) (by simpa using enough)
    refine ⟨r, ended, ?_⟩
    rw [after, events]
    -- The call of the executor lies between the pushes and is none itself.
    have behind : (called.afterCall a.operation width).state.registers.Pushed
        (a.mode.pushedLate m.state.registers)
        (.perform a.operation width called.state :: later) r.state := ⟨late.stores, late.stack⟩
    exact early.append behind (leaves.stack called.executor called.state)

theorem Bench.Reference.leavesReturn {mode : AddressingMode} {operation : Operation}
    (call : IsCall mode operation) (width : Width) :
    LeavesReturn Bench.Reference operation width := by
  cases call with
  | absolute | long => exact ⟨fun _ _ => rfl, fun _ _ _ => rfl⟩
  | indexed => exact ⟨fun _ _ => rfl, by simp⟩

theorem Table.pushes_return_wrapped :
    let a : Assignment := ⟨0x22, .absoluteLongCall, .jsl⟩
    let m : Machine FlatMemory Bench.Reference :=
      { state := .ofRegisters { pc := 0xFFFF, s := 1, programBank := 0x7E }
        bus := ⟨fun _ => 0⟩, executor := {} }
    a ∈ opcodeMap ∧ IsCall a.mode a.operation ∧ standardTable.PushesReturn a .sixteen m ∧
      ∃ r, standardTable.dispatch 20 0x22 .sixteen m = (.completed, r) ∧
        r.events.toList.filter (·.isStore) =
          [.store .stack 1 0x7E, .store .stack 0 0, .store .stack 0xFFFF 1] ∧
        r.state.registers.s = 0xFFFE := by
  intro a m
  have assigned : a ∈ opcodeMap := by decide
  have pushes := pushes_return build_opcodeMap assigned .long .sixteen m
  obtain ⟨r, ended, stored⟩ := pushes.whole (Bench.Reference.leavesReturn .long _) 20 (by decide)
  exact ⟨assigned, .long, pushes, r, ended, stored.stores.trans (by decide), stored.stack⟩

end

end Microcode
