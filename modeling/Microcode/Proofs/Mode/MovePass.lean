import Microcode.Proofs.Mode.BlockMove
import Microcode.Proofs.Mode.Termination

namespace Microcode

def Registers.moveCalls (R : Registers) (destination source byte first second : UInt8) :
    List Event :=
  [.fetch .program (inBank R.programBank R.pc) destination,
    .fetch .program (inBank R.programBank (R.pc + 1)) source,
    .fetch .data (inBank source R.x) byte,
    .store .data (inBank destination R.y) byte,
    .fetch .data (inBank destination R.y) first,
    .fetch .data (inBank destination R.y) second]

theorem Registers.moveCalls_eq (R : Registers) (destination source byte first second : UInt8) :
    R.moveCalls destination source byte first second =
      R.operandCalls [destination, source] ++
        [.fetch .data (inBank source R.x) byte, .store .data (inBank destination R.y) byte,
          .fetch .data (inBank destination R.y) first,
          .fetch .data (inBank destination R.y) second] := by
  simp only [operandCalls_cons, operandCalls_nil]
  rfl

namespace Table

section

variable {β ε : Type} [Bus β] [Executor ε]

-- A pass that begins after so many steps: what it asks of the bus, what the
-- executor finds when it is called for a byte, and what comes of its answer.
structure MovesByte (t : Table) (a : Assignment) (width : Width) (m : Machine β ε) (steps : Nat)
    (start called : Run β ε) (destination source : UInt8) : Prop where
  made : ∃ byte first second, called.events.toList = start.events.toList ++
    start.state.registers.moveCalls destination source byte first second
  cycles : called.cycles = start.cycles + 6
  calls : t.Calls a.opcode width m (steps + 6) called
  registers : called.state.registers =
    { start.state.registers with pc := start.state.registers.pc + 2 }
  instructionBuffer : called.state.instructionBuffer = .ofBytes [destination, source]
  dataBuffer : called.state.dataBuffer = .empty
  dataAddress : called.state.dataAddress.toNat =
    destination.toNat * 0x10000 + start.state.registers.y.toNat
  again : called.repeats a.operation width →
    ∃ next, t.PassBegins a.opcode width m (steps + 7) next ∧
      next.events = (called.afterCall a.operation width).events ∧
      next.state.registers = (called.afterCall a.operation width).state.registers
  done : ¬ called.repeats a.operation width → ∀ limit, steps + 7 < limit →
    t.dispatch limit a.opcode width m = (.completed, called.afterCall a.operation width)

structure MovesByPasses (t : Table) (a : Assignment) (width : Width) (m : Machine β ε) : Prop where
  empty : ∀ steps start, t.PassBegins a.opcode width m steps start →
    start.state.instructionBuffer = .empty ∧ start.state.dataBuffer = .empty
  pass : ∀ steps start, t.PassBegins a.opcode width m steps start →
    ∃ called destination source, t.MovesByte a width m steps start called destination source
  honoured : ∀ count, t.Honours a width m count →
    (∀ steps, (∃ start, t.PassBegins a.opcode width m steps start) ↔
      ∃ i ≤ count, steps = i * 7) ∧
    ∃ r, (∀ limit, (count + 1) * 7 < limit → t.dispatch limit a.opcode width m = (.completed, r)) ∧
      Event.performs r.events = count + 1 ∧ r.cycles = 6 * (count + 1)

variable {t : Table} {a : Assignment} {width : Width} {offset steps count : Nat} {m : Machine β ε}
  {start r : Run β ε}

namespace Holds

theorem counts_of_leads (mode : a.mode = .blockMove) (fresh : start.state.Fresh)
    (leads : Leads a.operation width (a.mode.prelude a.operation.access width) start r) :
    r.cycles = start.cycles + 6 ∧ Event.performs r.events = Event.performs start.events := by
  have performs := leads.performs (a.mode.perform_not_mem_prelude a.operation.access width)
  obtain ⟨called, -, -, -, -, -, moved, -, cycles, -⟩ :=
    leads_to_move fresh a.operation a.operation.access width
  rw [mode] at leads
  cases leads.functional moved
  exact ⟨cycles, performs⟩

theorem cycles_of_starts (mode : a.mode = .blockMove)
    (starts : Starts (a.mode.program a.operation.access width) a.operation width m.begin start) :
    start.cycles = 6 * Event.performs start.events := by
  induction starts with
  | first => rfl
  | @again start called next u behind ahead earlier split leads stepped ih =>
    obtain ⟨rfl, -, rfl⟩ := Run.of_restarted stepped
    obtain ⟨rfl, -⟩ := AddressingMode.parts_of_split split
    obtain ⟨cycles, performs⟩ :=
      counts_of_leads mode (earlier.fresh m.state.beginInstruction_fresh) leads
    have one := called.performs_afterCall a.operation width
    change called.cycles = 6 * Event.performs (called.afterCall a.operation width).events
    omega

theorem cycles_of_completed (holds : t.Holds a width offset) (mode : a.mode = .blockMove)
    (ended : t.dispatch steps a.opcode width m = (.completed, r)) :
    r.cycles = 6 * Event.performs r.events := by
  have stops := holds.stops steps m
  rw [ended] at stops
  obtain ⟨start, starts, whole⟩ := stops.completed_parts
  have split := AddressingMode.program_blockMove a.operation.access width
  rw [← mode] at split
  rw [split] at whole
  obtain ⟨called, leads, last⟩ := whole.split
  obtain ⟨cycles, performs⟩ :=
    counts_of_leads mode (starts.fresh m.state.beginInstruction_fresh) leads
  have so_far := cycles_of_starts mode starts
  cases last with
  | cons performed rest =>
    cases rest
    obtain ⟨-, rfl⟩ := Run.of_performed performed
    have one := called.performs_afterCall a.operation width
    change called.cycles = _
    omega

theorem movesByte (holds : t.Holds a width offset) (mode : a.mode = .blockMove)
    (begins : t.PassBegins a.opcode width m steps start) :
    ∃ called destination source, t.MovesByte a width m steps start called destination source := by
  obtain ⟨called, destination, source, byte, first, second, leads, state, cycles, events⟩ :=
    leads_to_move (holds.fresh_of_passBegins begins) a.operation a.operation.access width
  have split := AddressingMode.program_blockMove a.operation.access width
  have length := AddressingMode.length_blockMove_prelude a.operation.access width
  rw [← mode] at split leads length
  have calls := holds.calls begins split leads
  rw [length] at calls
  rw [← Registers.moveCalls_eq] at events
  refine ⟨called, destination, source, ⟨byte, first, second, events⟩, cycles, calls,
    ?_, ?_, ?_, ?_, ?_, ?_⟩
  · rw [state]
    rfl
  · rw [state]
  · rw [state]
    rfl
  · rw [state]
    exact toNat_inBank destination start.state.registers.y
  · intro repeated
    have onward := holds.passBegins_of_repeats begins split leads repeated
    rw [length] at onward
    exact ⟨_, onward, rfl, rfl⟩
  · intro once limit enough
    refine holds.completes_after_call begins split leads once .nil ?_
    rw [split, List.length_append, length]
    exact enough

theorem completes_of_honours (holds : t.Holds a width offset) (mode : a.mode = .blockMove)
    (honours : t.Honours a width m count) :
    ∃ r, (∀ limit, (count + 1) * 7 < limit → t.dispatch limit a.opcode width m = (.completed, r)) ∧
      Event.performs r.events = count + 1 := by
  have up : a.mode.storesDown width = false := by
    rw [mode]
    rfl
  have ends := holds.endsIn_of_honours (holds.neverFaults_of_storesDown up m) honours
  have split := AddressingMode.program_blockMove a.operation.access width
  have length := AddressingMode.length_blockMove_prelude a.operation.access width
  rw [← mode] at split length
  rw [split, List.length_append, length, List.length_singleton] at ends
  obtain ⟨position, r, -, performs, completed⟩ := ends
  exact ⟨r, fun limit enough => completed limit (by omega), performs⟩

theorem passBegins_iff_of_honours (holds : t.Holds a width offset) (mode : a.mode = .blockMove)
    (honours : t.Honours a width m count) (steps : Nat) :
    (∃ start, t.PassBegins a.opcode width m steps start) ↔ ∃ i ≤ count, steps = i * 7 := by
  have length := AddressingMode.length_blockMove_prelude a.operation.access width
  rw [← mode] at length
  have granted := holds.passBegins_of_honours honours
  rw [length] at granted
  constructor
  · rintro ⟨later, again⟩
    obtain ⟨r, completed, -⟩ := holds.completes_of_honours mode honours
    obtain ⟨called, -, ⟨position, stands, -⟩, -⟩ := holds.called_of_passBegins again
    have early : steps + 6 ≤ (count + 1) * 7 := by
      by_contra beyond
      rw [length, completed _ (by omega)] at stands
      cases stands
    have within : steps / 7 ≤ count := by omega
    obtain ⟨start, begins, -⟩ := granted _ within
    obtain ⟨called, leads, -⟩ := holds.called_of_passBegins begins
    have split := a.mode.program_eq a.operation.access width
    have inside := holds.inPass_of_leads begins split leads
    rw [length] at inside
    refine ⟨steps / 7, within, ?_⟩
    by_contra apart
    exact inside.2 steps (by omega) (by omega) later again
  · rintro ⟨i, within, rfl⟩
    obtain ⟨start, begins, -⟩ := granted i within
    exact ⟨start, begins⟩

end Holds

theorem moves_by_passes {assignments : List Assignment} (built : Table.build assignments = .ok t)
    (assigned : a ∈ assignments) (mode : a.mode = .blockMove) (width : Width) (m : Machine β ε) :
    t.MovesByPasses a width m := by
  obtain ⟨offset, holds⟩ := holds_of_build built assigned width
  refine ⟨?_, fun steps start => holds.movesByte mode, ?_⟩
  · intro steps start begins
    rw [holds.fresh_of_passBegins begins]
    exact ⟨rfl, rfl⟩
  · intro count honours
    obtain ⟨r, completed, performs⟩ := holds.completes_of_honours mode honours
    have cycles := holds.cycles_of_completed mode (completed _ (Nat.lt_succ_self _))
    rw [performs] at cycles
    exact ⟨holds.passBegins_iff_of_honours mode honours, r, completed, performs, cycles⟩

end

theorem moves_by_passes_scribbled :
    let a : Assignment := ⟨0x44, .blockMove, .mvp⟩
    let t := ([a].foldl Builder.accept {}).table
    let m : Machine Bench.Memory Bench.Player :=
      { state := .ofRegisters { x := 0xFFFF, y := 0x8000, pc := 0xFFFF }
        bus := {}
        executor := { scripts := [
          [.act (.instructionBuffer (.set 0xFFFFFFFF 0xFF)),
            .act (.dataBuffer (.set 0xFFFFFFFF 0xFF)),
            .act (.set [.pc 0xFFFE, .y 0x1234]), .complete .again]] } }
    Table.build [a] = .ok t ∧ t.MovesByPasses a .sixteen m ∧ t.Honours a .sixteen m 1 ∧
      (t.dispatch 15 a.opcode .sixteen m).1 = .completed ∧
      (t.dispatch 15 a.opcode .sixteen m).2.cycles = 12 := by
  intro a t m
  have built : Table.build [a] = .ok t := build_of_ascending (List.pairwise_singleton _ _)
  have all : ∀ script ∈ m.executor.scripts, Bench.Script.completion script = .again := by
    simp [m, Bench.Script.completion]
  have asks : t.AsksAgain a .sixteen m 1 := asksAgain_of_scripts t a .sixteen m all
  exact ⟨built, moves_by_passes built (List.mem_singleton_self a) rfl .sixteen m,
    asks.honours rfl, by decide +kernel, by decide +kernel⟩

end Table

end Microcode
