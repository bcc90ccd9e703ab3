import Microcode.Bench.Reference
import Microcode.Proofs.Execution.Cycles
import Microcode.Proofs.Execution.FlatMemory
import Microcode.Proofs.Mode.Control

namespace Microcode

open Bench (nextByte stride)

def MovesBytes (ε : Type) [Executor ε] (operation : Operation) : Prop :=
  ∀ (e : ε) (width : Width) (s : State),
    ((Executor.perform e operation width s).completion,
      (Executor.perform e operation width s).datapath) = nextByte operation s.toDatapath

theorem Bench.Reference.movesBytes {operation : Operation} (moves : operation.isBlockMove) :
    MovesBytes Bench.Reference operation := by
  intro e width s
  cases operation with
  | mvn | mvp => rfl
  | _ => cases moves

def blockAddress (bank : UInt8) (first : UInt16) (operation : Operation) (i : Nat) : UInt32 :=
  inBank bank (first + stride operation * .ofNat i)

theorem inBank_inj {bank : UInt8} {one two : UInt16} (same : inBank bank one = inBank bank two) :
    one = two := by
  have value := congrArg UInt32.toNat same
  rw [toNat_inBank, toNat_inBank] at value
  exact UInt16.toNat_inj.mp (Nat.add_left_cancel value)

theorem blockAddress_inj {bank : UInt8} {first : UInt16} {operation : Operation} {i j : Nat}
    (one : i < 0x10000) (two : j < 0x10000)
    (same : blockAddress bank first operation i = blockAddress bank first operation j) : i = j := by
  have offsets := congrArg UInt16.toNat (inBank_inj same)
  have first := first.toNat_lt
  have odd : (stride operation).toNat = 1 ∨ (stride operation).toNat = 0xffff := by
    cases operation <;> decide
  simp only [UInt16.toNat_add, UInt16.toNat_mul, UInt16.toNat_ofNat'] at offsets
  rcases odd with up | down
  · rw [up] at offsets
    omega
  · rw [down] at offsets
    omega

def Event.storeCount (events : Array Event) : Nat :=
  events.toList.countP (·.isStore)

section

variable {ε : Type} (m : Machine FlatMemory ε) (operation : Operation)

def Machine.destination (i : Nat) : UInt32 :=
  blockAddress (m.bus.read m.state.registers.programAddress) m.state.registers.y operation i

def Machine.source (i : Nat) : UInt32 :=
  blockAddress (m.bus.read (m.state.registers.advance 1).programAddress) m.state.registers.x
    operation i

def Machine.OperandsApart : Prop :=
  ∀ i ≤ m.state.registers.a.toNat, m.destination operation i ≠ m.state.registers.programAddress ∧
    m.destination operation i ≠ (m.state.registers.advance 1).programAddress

variable {m operation}

-- A block move before its byte number `i`, counted from zero. The data bank is
-- that of the first pass or of the destination.
def Registers.atByte (R : Registers) (operation : Operation) (i : Nat) (dataBank : UInt8) :
    Registers :=
  { R with
    a := R.a - .ofNat i
    x := R.x + stride operation * .ofNat i
    y := R.y + stride operation * .ofNat i
    dataBank }

structure Run.AtByte (r : Run FlatMemory ε) (m : Machine FlatMemory ε) (operation : Operation)
    (i : Nat) : Prop where
  registers : ∃ dataBank, r.state.registers = m.state.registers.atByte operation i dataBank
  memory : r.bus = m.bus.copyBytes (m.source operation) (m.destination operation) i
  cycles : r.cycles = 6 * i
  stores : Event.storeCount r.events = i

end

theorem Registers.atByte_zero (R : Registers) (operation : Operation) :
    R.atByte operation 0 R.dataBank = R := by
  simp [atByte]

namespace Bench

variable {R : Registers} {operation : Operation} {i : Nat} {dataBank : UInt8} {d : Datapath}

theorem counted_down (a : UInt16) (i : Nat) : a - .ofNat i - 1 = a - .ofNat (i + 1) := by
  rw [UInt16.ofNat_add]
  grind

theorem counted_on (index stride : UInt16) (i : Nat) :
    index + stride * .ofNat i + stride = index + stride * .ofNat (i + 1) := by
  rw [UInt16.ofNat_add]
  grind

theorem used_up_iff {a : UInt16} (within : i ≤ a.toNat) :
    a - .ofNat (i + 1) = 0xffff ↔ i = a.toNat := by
  have bound := a.toNat_lt
  rw [← UInt16.toNat_inj, UInt16.toNat_sub, UInt16.toNat_ofNat']
  change (2 ^ 16 - (i + 1) % 2 ^ 16 + a.toNat) % 2 ^ 16 = 0xffff ↔ _
  omega

theorem nextByte_of_more (reached : d.registers = (R.atByte operation i dataBank).advance 2)
    (more : i < R.a.toNat) :
    nextByte operation d =
      (.again, { d with registers := R.atByte operation (i + 1) d.instructionBuffer.lowest }) := by
  have left : d.registers.a - 1 ≠ 0xffff := by
    rw [reached]
    simp only [Registers.advance, Registers.atByte, counted_down, ne_eq,
      used_up_iff (Nat.le_of_lt more)]
    omega
  have back : R.pc + .ofNat 2 - 2 = R.pc := UInt16.add_sub_cancel ..
  rw [nextByte, if_neg left, reached]
  simp only [Registers.advance, Registers.atByte, counted_down, counted_on, back]

theorem nextByte_of_last (reached : d.registers = (R.atByte operation i dataBank).advance 2)
    (last : i = R.a.toNat) :
    nextByte operation d =
      (.done, { d with
        registers := (R.atByte operation (i + 1) d.instructionBuffer.lowest).advance 2 }) := by
  have none : d.registers.a - 1 = 0xffff := by
    rw [reached]
    simp only [Registers.advance, Registers.atByte, counted_down]
    exact (used_up_iff (Nat.le_of_eq last)).mpr last
  rw [nextByte, if_pos none, reached]
  simp only [Registers.advance, Registers.atByte, counted_down, counted_on]

end Bench

theorem Event.storeCount_push (events : Array Event) (e : Event) :
    storeCount (events.push e) = storeCount events + if e.isStore then 1 else 0 := by
  rw [storeCount, storeCount, Array.toList_push, List.countP_append, List.countP_singleton]

theorem leads_to_move {β ε : Type} [Bus β] [Executor ε] {start : Run β ε}
    (fresh : start.state.Fresh) (operation : Operation) (access : Access) (width : Width) :
    ∃ called destination source byte first second,
      Leads operation width (AddressingMode.blockMove.prelude access width) start called ∧
      called.state = .holding (start.state.registers.advance 2) [destination, source] []
        (inBank destination start.state.registers.y) start.state.incrementMask
        start.state.uncorrected false ∧
      called.cycles = start.cycles + 6 ∧
      called.events.toList = start.events.toList ++
        (start.state.registers.operandCalls [destination, source] ++
          [.fetch .data (inBank source start.state.registers.x) byte,
            .store .data (inBank destination start.state.registers.y) byte,
            .fetch .data (inBank destination start.state.registers.y) first,
            .fetch .data (inBank destination start.state.registers.y) second]) := by
  have yields : Yields operation width
      (AddressingMode.blockMove.prelude access width ++ []) start.state fun calls s =>
        ∃ destination source byte first second,
          s = .holding (start.state.registers.advance 2) [destination, source] []
            (inBank destination start.state.registers.y) start.state.incrementMask
            start.state.uncorrected false ∧
          calls = start.state.registers.operandCalls [destination, source] ++
            [.fetch .data (inBank source start.state.registers.x) byte,
              .store .data (inBank destination start.state.registers.y) byte,
              .fetch .data (inBank destination start.state.registers.y) first,
              .fetch .data (inBank destination start.state.registers.y) second] := by
    rw [fresh]
    refine Yields.blockMove fun destination source byte first second => .nil ?_
    exact ⟨destination, source, byte, first, second, rfl, rfl⟩
  rw [List.append_nil] at yields
  obtain ⟨called, calls, leads, -, events, cycles, -, destination, source, byte, first, second,
    state, made⟩ := yields.run start rfl
  refine ⟨called, destination, source, byte, first, second, leads, state, ?_, made ▸ events⟩
  rw [cycles, made]
  rfl

section

variable {ε : Type} {m : Machine FlatMemory ε} {operation : Operation}

theorem Bus.Answers.blockMove {memory last : FlatMemory} {R : Registers}
    {destination source byte first second : UInt8} {origin target : UInt32}
    (answered : Bus.Answers memory (R.operandCalls [destination, source] ++
      [.fetch .data origin byte, .store .data target byte, .fetch .data target first,
        .fetch .data target second]) last) :
    destination = memory.read R.programAddress ∧
      source = memory.read (R.advance 1).programAddress ∧
        last = memory.write target (memory.read origin) := by
  simp only [Registers.operandCalls_cons, Registers.operandCalls_nil, List.cons_append,
    List.nil_append, fetch_iff, store_iff, FlatMemory.fetch_eq, FlatMemory.store_eq] at answered
  obtain ⟨atFirst, atSecond, moved, -, -, rest⟩ := answered
  exact ⟨atFirst, atSecond, moved ▸ nil_iff.mp rest⟩

theorem Run.atByte_begin (m : Machine FlatMemory ε) (operation : Operation) :
    m.begin.AtByte m operation 0 where
  registers := ⟨m.state.registers.dataBank, (m.state.registers.atByte_zero operation).symm⟩
  memory := rfl
  cycles := rfl
  stores := rfl

-- A pass as far as its call. The operands it reads are those of the first pass,
-- because nothing was moved onto them.
theorem Run.AtByte.pass [Executor ε] {start : Run FlatMemory ε} {i : Nat}
    (reached : start.AtByte m operation i) (width : Width) (within : i ≤ m.state.registers.a.toNat)
    (apart : m.OperandsApart operation) (fresh : start.state.Fresh) (access : Access) :
    ∃ called, Leads operation width (AddressingMode.blockMove.prelude access width) start called ∧
      (∃ dataBank,
        called.state.registers = (m.state.registers.atByte operation i dataBank).advance 2) ∧
      called.state.instructionBuffer.lowest = m.bus.read m.state.registers.programAddress ∧
      called.bus = m.bus.copyBytes (m.source operation) (m.destination operation) (i + 1) ∧
      called.cycles = 6 * (i + 1) ∧ Event.storeCount called.events = i + 1 := by
  obtain ⟨called, destination, source, byte, first, second, leads, state, cycles, events⟩ :=
    leads_to_move fresh operation access width
  obtain ⟨calls, logged, answered⟩ := leads.answers
  rw [events] at logged
  rw [← List.append_cancel_left logged] at answered
  obtain ⟨atFirst, atSecond, memory⟩ := answered.blockMove
  obtain ⟨dataBank, same⟩ := reached.registers
  have unmoved : ∀ address, (∀ j < i, address ≠ m.destination operation j) →
      start.bus.read address = m.bus.read address := by
    intro address other
    rw [reached.memory]
    exact FlatMemory.read_copyBytes_other other
  have places : start.state.registers.programAddress = m.state.registers.programAddress ∧
      (start.state.registers.advance 1).programAddress =
        (m.state.registers.advance 1).programAddress := by
    rw [same]
    exact ⟨rfl, rfl⟩
  rw [places.1, unmoved _ fun j less => (apart j (by omega)).1.symm] at atFirst
  rw [places.2, unmoved _ fun j less => (apart j (by omega)).2.symm] at atSecond
  refine ⟨called, leads, ⟨dataBank, ?_⟩, ?_, ?_, ?_, ?_⟩
  · rw [state, ← same]
  · rw [← atFirst, state]
    exact Buffer.lowest_ofBytes destination (by simp)
  · rw [memory, reached.memory, FlatMemory.copyBytes, atFirst, atSecond, same]
    rfl
  · rw [cycles, reached.cycles]
    rfl
  · have stored := reached.stores
    rw [Event.storeCount] at stored ⊢
    rw [events, List.countP_append, stored]
    rfl

variable [Executor ε] {t : Table} {a : Assignment} {width : Width} {offset : Nat}

theorem AddressingMode.length_blockMove_prelude (access : Access) (width : Width) :
    (AddressingMode.blockMove.prelude access width).length = 6 := by
  cases access <;> cases width <;> rfl

theorem AddressingMode.program_blockMove (access : Access) (width : Width) :
    AddressingMode.blockMove.program access width =
      AddressingMode.blockMove.prelude access width ++ [.perform] := by
  cases access <;> cases width <;> rfl

theorem Table.Holds.reaches_byte (holds : t.Holds a width offset) (mode : a.mode = .blockMove)
    (moves : a.operation.isBlockMove) (semantics : MovesBytes ε a.operation)
    (apart : m.OperandsApart a.operation) (i : Nat) (within : i ≤ m.state.registers.a.toNat) :
    ∃ start, t.PassBegins a.opcode width m (7 * i) start ∧ start.AtByte m a.operation i := by
  induction i with
  | zero => exact ⟨m.begin, holds.passBegins_first m, Run.atByte_begin m a.operation⟩
  | succ i ih =>
    obtain ⟨start, begins, reached⟩ := ih (by omega)
    obtain ⟨called, leads, ⟨dataBank, registers⟩, bank, memory, cycles, stores⟩ :=
      reached.pass width (by omega) apart (holds.fresh_of_passBegins begins) a.operation.access
    have effect := semantics called.executor width called.state
    rw [Bench.nextByte_of_more registers within] at effect
    obtain ⟨again, left⟩ := Prod.mk.inj effect
    have split := AddressingMode.program_blockMove a.operation.access width
    rw [← mode] at split leads
    have onward := holds.passBegins_of_repeats begins split leads ⟨again, moves⟩
    rw [mode, AddressingMode.length_blockMove_prelude] at onward
    refine ⟨_, onward, ⟨⟨_, congrArg Datapath.registers left⟩, memory, cycles, ?_⟩⟩
    exact (Event.storeCount_push ..).trans stores

structure Run.HasMovedBlock (r : Run FlatMemory ε) (m : Machine FlatMemory ε)
    (operation : Operation) (count : Nat) : Prop where
  cycles : r.cycles = 6 * count
  busCalls : Event.busCalls r.events = 6 * count
  stores : Event.storeCount r.events = count
  memory : r.bus = m.bus.copyBytes (m.source operation) (m.destination operation) count
  -- The block arrives as it was, unless a byte is moved onto one still to come.
  arrived : (∀ i < count, ∀ j < i, m.source operation i ≠ m.destination operation j) →
    ∀ i < count, r.bus.read (m.destination operation i) = m.bus.read (m.source operation i)
  others : ∀ address, (∀ i < count, address ≠ m.destination operation i) →
    r.bus.read address = m.bus.read address
  registers : r.state.registers = { m.state.registers with
    a := 0xffff
    x := m.state.registers.x + stride operation * .ofNat count
    y := m.state.registers.y + stride operation * .ofNat count
    dataBank := m.bus.read m.state.registers.programAddress
    pc := m.state.registers.pc + 2 }

theorem Table.moves_block {assignments : List Assignment} (built : Table.build assignments = .ok t)
    (assigned : a ∈ assignments) (mode : a.mode = .blockMove) (moves : a.operation.isBlockMove)
    (semantics : MovesBytes ε a.operation) (apart : m.OperandsApart a.operation) {limit : Nat}
    (enough : 7 * (m.state.registers.a.toNat + 1) < limit) :
    ∃ r, t.dispatch limit a.opcode width m = (.completed, r) ∧
      r.HasMovedBlock m a.operation (m.state.registers.a.toNat + 1) := by
  obtain ⟨offset, holds⟩ := holds_of_build built assigned width
  have all := Nat.le_refl m.state.registers.a.toNat
  have size := m.state.registers.a.toNat_lt
  obtain ⟨start, begins, reached⟩ := holds.reaches_byte mode moves semantics apart _ all
  obtain ⟨called, leads, ⟨dataBank, registers⟩, bank, memory, cycles, stores⟩ :=
    reached.pass width all apart (holds.fresh_of_passBegins begins) a.operation.access
  have effect := semantics called.executor width called.state
  rw [Bench.nextByte_of_last registers rfl] at effect
  obtain ⟨done, left⟩ := Prod.mk.inj effect
  have once : ¬ called.repeats a.operation width := fun repeated => by
    rw [Run.repeats, done] at repeated
    cases repeated.1
  have split := AddressingMode.program_blockMove a.operation.access width
  have length : (a.mode.program a.operation.access width).length = 7 := by
    rw [mode, split, List.length_append, AddressingMode.length_blockMove_prelude]
    rfl
  rw [← mode] at split leads
  have ended := holds.completes_after_call begins split leads once .nil
    (show 7 * m.state.registers.a.toNat + _ < limit by omega)
  have balanced := t.dispatch_balanced limit a.opcode width m
  rw [ended] at balanced
  refine ⟨_, ended, cycles, balanced.symm.trans cycles, (Event.storeCount_push ..).trans stores,
    memory, ?_, ?_, ?_⟩
  · intro unwritten i within
    have distinct : ∀ i < m.state.registers.a.toNat + 1, ∀ j < i,
        m.destination a.operation i ≠ m.destination a.operation j := by
      intro i within j earlier same
      have equal := blockAddress_inj (by omega) (by omega) same
      omega
    exact memory ▸ FlatMemory.read_copyBytes_target distinct unwritten i within
  · intro address other
    exact memory ▸ FlatMemory.read_copyBytes_other other
  · have final := congrArg Datapath.registers left
    rw [bank] at final
    refine final.trans ?_
    simp only [Registers.advance, Registers.atByte, (Bench.used_up_iff all).mpr rfl]
    rfl

theorem Table.moves_block_overlapping :
    let a : Assignment := ⟨0x54, .blockMove, .mvn⟩
    let m : Machine FlatMemory Bench.Reference :=
      { state := .ofRegisters { a := 2, x := 0xFFFF, y := 0, pc := 0xFFFF }
        bus := ⟨fun address => if address = 0 ∨ address = 0xFFFF then 0x7E else address.toUInt8⟩
        executor := {} }
    a ∈ opcodeMap ∧ a.mode = .blockMove ∧ a.operation.isBlockMove ∧
      MovesBytes Bench.Reference a.operation ∧ m.OperandsApart a.operation ∧
      7 * (m.state.registers.a.toNat + 1) < 100 ∧
      ∃ r, standardTable.dispatch 100 a.opcode .eight m = (.completed, r) ∧
        r.HasMovedBlock m a.operation (m.state.registers.a.toNat + 1) := by
  intro a m
  have assigned : a ∈ opcodeMap := by decide
  have semantics : MovesBytes Bench.Reference a.operation := Bench.Reference.movesBytes rfl
  have apart : m.OperandsApart a.operation := by
    unfold Machine.OperandsApart
    decide
  exact ⟨assigned, rfl, rfl, semantics, apart, by decide,
    moves_block build_opcodeMap assigned rfl rfl semantics apart (by decide)⟩

end

end Microcode
