import Microcode.Bench.Memory
import Microcode.Bench.Reference
import Microcode.Proofs.Execution.Dispatches
import Microcode.Proofs.Mode.Head
import Microcode.Proofs.Mode.Result

namespace Microcode

section

variable {β ε : Type} [Bus β] [Executor ε]

-- What a dispatch has done that modified an operand in place. The executor finds
-- the old bytes in the data buffer. What it leaves goes back to the addresses the
-- old bytes came from, the higher first, and the data address is as it was.
structure Run.HasModified (r : Run β ε) (m : Machine β ε) (a : Assignment) (width : Width)
    (reading : Reading) (old : List UInt8) (called : State) : Prop where
  fits : reading.Fits a.mode a.operation.access m.state.registers
  whole : old.length = width.bytes.toNat
  dataBuffer : called.dataBuffer = .ofBytes old
  events :
    let address := fun i =>
      UInt32.ofNat ((reading.target a.mode m.state.registers + i) % a.mode.wrap.size)
    let left := (Executor.perform m.executor a.operation width called).datapath.dataBuffer
    ∃ again, r.events.toList = reading.calls a.mode m.state.registers ++
      (Event.fetches .data address old ++ .meanwhile width address old again ::
        .perform a.operation width called ::
          (Event.stores .data address (left.result width)).reverse)
  dataAddress : r.state.dataAddress = .ofNat (reading.target a.mode m.state.registers)

theorem Table.modifies_operand {assignments : List Assignment} {t : Table}
    (built : Table.build assignments = .ok t) {a : Assignment} (assigned : a ∈ assignments)
    (modifies : a.mode.isModify) {width : Width} (keeps : KeepsAddress ε a.operation width)
    (leaves : LeavesResult ε a.operation width) {m : Machine β ε}
    (single : t.SinglePass a.opcode width m) {limit : Nat}
    (enough : (a.mode.program a.operation.access width).length < limit) :
    ∃ r reading old called, t.dispatch limit a.opcode width m = (.completed, r) ∧
      r.HasModified m a width reading old called := by
  obtain ⟨offset, holds⟩ := holds_of_build built assigned width
  have begins := holds.passBegins_first m
  have fresh : m.begin.state.Fresh := m.state.beginInstruction_fresh
  have split := a.mode.program_eq a.operation.access width
  have yields : Yields a.operation width (a.mode.prelude a.operation.access width ++ [])
      m.begin.state fun calls s => ∃ (reading : Reading) (old : List UInt8) (again : UInt8),
        reading.Fits a.mode a.operation.access m.state.registers ∧
          old.length = width.bytes.toNat ∧ s.dataBuffer = .ofBytes old ∧
          s.incrementMask = a.mode.wrap.mask ∧
          let address := fun i =>
            UInt32.ofNat ((reading.target a.mode m.state.registers + i) % a.mode.wrap.size)
          s.dataAddress = address (width.bytes.toNat - 1) ∧
            calls = reading.calls a.mode m.state.registers ++
              (Event.fetches .data address old ++ [.meanwhile width address old again]) := by
    rw [fresh]
    refine Yields.modifyPrelude modifies fun reading old again U fits whole => .nil ?_
    exact ⟨reading, old, again, fits, whole, rfl, rfl, rfl, rfl⟩
  rw [List.append_nil] at yields
  obtain ⟨called, calls, leads, executor, events, -, -, reading, old, again, fits, whole, held, mask,
    address, made⟩ := yields.run m.begin rfl
  have clear := skipNext_of_called fresh split leads
  have once := holds.not_repeats single split leads
  obtain ⟨address_kept, mask_kept⟩ := keeps called.executor called.state
  have stores := Yields.resultStoresDown (s := (called.afterCall a.operation width).state)
    a.operation width (reading.target_lt (.inr modifies) fits) clear (address_kept.trans address)
    (mask_kept.trans mask) (leaves called.executor called.state)
  rw [← AddressingMode.finale_of_isModify modifies a.operation.access] at stores
  rw [← Nat.zero_add (List.length _)] at enough
  obtain ⟨r, later, ended, whole_events, stored, back⟩ :=
    holds.completes_of_yields begins split leads once stores enough
  have same : called.executor = m.executor := executor
  refine ⟨r, reading, old, called.state, ended, fits, whole, held, ⟨again, ?_⟩, back⟩
  rw [whole_events, events, made, stored, ← same]
  simp only [Machine.begin, List.nil_append, List.append_assoc, List.singleton_append]
  rfl

theorem Table.modifies_operand_wrapped :
    let a : Assignment := ⟨0x16, .directXModify, .asl⟩
    let m : Machine Bench.Memory Bench.Reference :=
      { state := .ofRegisters { direct := 0xFF01, x := 0xFE }
        bus := Bench.Memory.writeAll {} 0xFFFF [0x80, 0x40], executor := {} }
    a ∈ opcodeMap ∧ a.mode.isModify ∧ KeepsAddress Bench.Reference a.operation .sixteen ∧
      LeavesResult Bench.Reference a.operation .sixteen ∧
      standardTable.SinglePass a.opcode .sixteen m ∧
      (a.mode.program a.operation.access .sixteen).length < 20 ∧
      ∃ r reading old called, standardTable.dispatch 20 a.opcode .sixteen m = (.completed, r) ∧
        r.HasModified m a .sixteen reading old called := by
  intro a m
  have assigned : a ∈ opcodeMap := by decide
  have keeps := Bench.Reference.keepsAddress a.operation .sixteen
  have leaves : LeavesResult Bench.Reference a.operation .sixteen := fun _ _ => rfl
  obtain ⟨offset, holds⟩ := holds_of_build build_opcodeMap assigned .sixteen
  have single : standardTable.SinglePass a.opcode .sixteen m := holds.singlePass rfl
  exact ⟨assigned, rfl, keeps, leaves, single, by decide,
    modifies_operand build_opcodeMap assigned rfl keeps leaves single (by decide)⟩

end

end Microcode
