import Microcode.Bench.Session
import Microcode.Proofs.Execution.Cycles
import Microcode.Proofs.Mode.Prelude

namespace Microcode

namespace Width

theorem toNat_mask (width : Width) : width.mask.toNat = 2 ^ width.bits - 1 := by
  cases width <;> rfl

theorem bits_le (width : Width) : width.bits ≤ 16 := by
  cases width <;> decide

theorem two_pow_bits (width : Width) : 2 ^ width.bits = 256 ^ width.bytes.toNat := by
  cases width <;> rfl

theorem toNat_and_mask (width : Width) (register : UInt16) :
    (register &&& width.mask).toNat = register.toNat % 2 ^ width.bits := by
  rw [UInt16.toNat_and, width.toNat_mask, and_low_bits]

theorem toNat_merge (width : Width) (register value : UInt16) :
    ((register &&& ~~~width.mask) ||| (value &&& width.mask)).toNat =
      2 ^ width.bits * (register.toNat / 2 ^ width.bits) + value.toNat % 2 ^ width.bits := by
  have high := and_high_bits register.toNat_lt width.bits_le
  have below : value.toNat % 2 ^ width.bits < 2 ^ width.bits := Nat.mod_lt _ (Nat.two_pow_pos _)
  rw [UInt16.toNat_or, width.toNat_and_mask, UInt16.toNat_and, UInt16.toNat_not, width.toNat_mask,
    Nat.two_pow_add_eq_or_of_lt below]
  exact congrArg (· ||| _) high

end Width

theorem Buffer.ofValue_masked (register : UInt16) (width : Width) :
    ofValue (register &&& width.mask).toUInt32 width.bytes =
      ⟨(register &&& width.mask).toUInt32, width.bytes⟩ := by
  have few : width.bytes.toNat < 4 := by cases width <;> decide
  refine Buffer.ext (UInt32.toNat_inj.mp ?_) (size_ofValue ..)
  rw [ofValue_toNat few, UInt16.toNat_toUInt32, width.toNat_and_mask, width.two_pow_bits]
  exact Nat.mod_mod _ _

theorem toNat_toUInt16_mod (value : UInt32) (width : Width) :
    value.toUInt16.toNat % 2 ^ width.bits = value.toNat % 2 ^ width.bits := by
  have divides : 2 ^ width.bits ∣ 2 ^ 16 := Nat.pow_dvd_pow 2 width.bits_le
  rw [UInt32.toNat_toUInt16]
  exact Nat.mod_mod_of_dvd _ divides

theorem Copy.toNat_dataToAccumulator (width : Width) (d : Datapath) :
    (Copy.dataToAccumulator.apply width d).registers.a.toNat =
      2 ^ width.bits * (d.registers.a.toNat / 2 ^ width.bits) +
        d.dataBuffer.value.toNat % 2 ^ width.bits := by
  rw [← toNat_toUInt16_mod]
  exact width.toNat_merge ..

theorem Copy.dataToAccumulator_restores (width : Width) {d : Datapath}
    (held : d.dataBuffer.value = (d.registers.a &&& width.mask).toUInt32) :
    (Copy.dataToAccumulator.apply width d).registers.a = d.registers.a := by
  apply UInt16.toNat_inj.mp
  rw [toNat_dataToAccumulator, held, UInt16.toNat_toUInt32, width.toNat_and_mask, Nat.mod_mod,
    Nat.div_add_mod]

section

variable {β ε : Type} [Bus β] [Executor ε]

-- What a dispatch has done that worked on the accumulator. One idle read fills the
-- cycle, the executor finds the accumulator in the data buffer, and what it leaves
-- there goes back, however many bytes that are.
structure Run.HasWorkedInPlace (r : Run β ε) (m : Machine β ε) (a : Assignment) (width : Width)
    (called : State) (left : Datapath) : Prop where
  leaves : left = (Executor.perform m.executor a.operation width called).datapath
  events : ∃ idle, r.events.toList =
    [.fetch .program m.state.registers.programAddress idle, .perform a.operation width called]
  cycles : r.cycles = 1
  registers : called.registers = m.state.registers
  dataBuffer : called.dataBuffer = ⟨(m.state.registers.a &&& width.mask).toUInt32, width.bytes⟩
  after : r.state.toDatapath = { left with registers.a :=
    (left.registers.a &&& ~~~width.mask) ||| (left.dataBuffer.value.toUInt16 &&& width.mask) }
  accumulator : r.state.registers.a.toNat =
    2 ^ width.bits * (left.registers.a.toNat / 2 ^ width.bits) +
      left.dataBuffer.value.toNat % 2 ^ width.bits

namespace Yields

variable {operation : Operation} {access : Access} {width : Width} {R : Registers} {A M U : UInt32}

theorem accumulator :
    Yields operation width (AddressingMode.accumulator.prelude access width)
      (.holding R [] [] A M U false)
      fun calls s => s.registers = R ∧
        s.dataBuffer = ⟨(R.a &&& width.mask).toUInt32, width.bytes⟩ ∧
        ∃ idle, calls = [.fetch .program R.programAddress idle] :=
  fetch rfl rfl (fun _ => rfl) fun idle =>
    copy (.nil ⟨rfl, Buffer.ofValue_masked R.a width, idle, rfl⟩)

end Yields

theorem Table.works_in_place {assignments : List Assignment} {t : Table}
    (built : Table.build assignments = .ok t) {a : Assignment} (assigned : a ∈ assignments)
    (mode : a.mode = .accumulator) {width : Width} {m : Machine β ε}
    (single : t.SinglePass a.opcode width m) {limit : Nat}
    (enough : (a.mode.program a.operation.access width).length < limit) :
    ∃ r called left, t.dispatch limit a.opcode width m = (.completed, r) ∧
      r.HasWorkedInPlace m a width called left := by
  obtain ⟨offset, holds⟩ := holds_of_build built assigned width
  have begins := holds.passBegins_first m
  have fresh : m.begin.state.Fresh := m.state.beginInstruction_fresh
  have split := a.mode.program_eq a.operation.access width
  have yields : Yields a.operation width (a.mode.prelude a.operation.access width) m.begin.state
      fun calls s => s.registers = m.state.registers ∧
        s.dataBuffer = ⟨(m.state.registers.a &&& width.mask).toUInt32, width.bytes⟩ ∧
        ∃ idle, calls = [.fetch .program m.state.registers.programAddress idle] := by
    rw [mode, fresh]
    exact Yields.accumulator
  obtain ⟨called, calls, leads, executor, events, -, -, registers, held, idle, made⟩ :=
    yields.run m.begin rfl
  have once := holds.not_repeats single split leads
  have onward : Yields a.operation width (a.mode.finale a.operation.access width)
      (called.afterCall a.operation width).state fun calls s => calls = [] ∧
        s = (called.afterCall a.operation width).state.withDatapath
          (Copy.dataToAccumulator.apply width (called.afterCall a.operation width).state.toDatapath) := by
    rw [mode]
    exact .copy (.nil ⟨rfl, rfl⟩)
  rw [← Nat.zero_add (List.length _)] at enough
  obtain ⟨r, none, ended, all, rfl, after⟩ :=
    holds.completes_of_yields begins split leads once onward enough
  have same : called.executor = m.executor := executor
  have whole : r.events.toList = [.fetch .program m.state.registers.programAddress idle,
      .perform a.operation width called.state] := by
    rw [all, events, made]
    rfl
  have balanced := t.dispatch_balanced limit a.opcode width m
  rw [ended] at balanced
  refine ⟨r, called.state, _, ended, rfl, ⟨idle, whole⟩, ?_, registers, held, ?_, ?_⟩
  · rw [balanced, Event.busCalls, whole]
    rfl
  · rw [after, ← same]
    rfl
  · rw [after, ← same]
    exact Copy.toNat_dataToAccumulator width _

end

-- The executor leaves nine bytes, of which one goes back, and an accumulator of
-- its own, which keeps its high byte.
theorem Table.works_in_place_oversized :
    let a : Assignment := ⟨0x0A, .accumulator, .asl⟩
    let t := ([a].foldl Builder.accept {}).table
    let m : Machine Bench.Memory Bench.Player :=
      { state := { State.ofRegisters { a := 0xBEEF, pc := 0xFFFF, programBank := 0x12 } with
          skipNext := true }
        bus := {}
        executor :=
          { scripts := [[.act (.set [.a 0x1234]), .act (.dataBuffer (.set 0xFFFFAB77 9))]] } }
    Table.build [a] = .ok t ∧ a.mode = .accumulator ∧ t.SinglePass a.opcode .eight m ∧
      (a.mode.program a.operation.access .eight).length < 6 ∧
      (t.dispatch 6 a.opcode .eight m).2.state.registers.a = 0x1277 ∧
      ∃ r called left, t.dispatch 6 a.opcode .eight m = (.completed, r) ∧
        r.HasWorkedInPlace m a .eight called left := by
  intro a t m
  have built : Table.build [a] = .ok t := build_of_ascending (List.pairwise_singleton _ _)
  have assigned := List.mem_singleton_self a
  obtain ⟨offset, holds⟩ := holds_of_build built assigned .eight
  have single : t.SinglePass a.opcode .eight m := holds.singlePass rfl
  exact ⟨built, rfl, single, by decide, by decide +kernel,
    works_in_place built assigned rfl single (by decide)⟩

end Microcode
