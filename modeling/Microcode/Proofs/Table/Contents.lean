import Mathlib.Data.List.Sort
import Mathlib.Order.Lattice
import Microcode.Execution.Dispatch
import Microcode.Proofs.Table.Construction
import Microcode.Table.OpcodeMap

namespace Microcode

theorem Entry.forWidth_eq (operation : Operation) (p : Placement) (width : Width) :
    (⟨operation, p.eightOffset, p.sixteenOffset⟩ : Entry).forWidth width =
      ⟨p.offset width, operation⟩ := by
  cases width <;> rfl

namespace Table

variable {assignments : List Assignment} {t : Table}

theorem serves_of_build (built : Table.build assignments = .ok t) :
    ∃ b : Builder, b.table = t ∧ b.Serves assignments := by
  obtain ⟨ascending, rfl⟩ := build_eq_ok_iff.mp built
  exact ⟨_, rfl, Builder.serves_foldl Builder.serves_empty ascending⟩

theorem instruction?_of_build (built : Table.build assignments = .ok t) {a : Assignment}
    (assigned : a ∈ assignments) (width : Width) :
    ∃ offset, t.instruction? a.opcode width = some ⟨offset, a.operation⟩ ∧
      Placed t.store offset (a.mode.program a.operation.access width) := by
  obtain ⟨b, rfl, serves⟩ := serves_of_build built
  obtain ⟨p, cached, entry⟩ := serves.assigned a assigned
  refine ⟨p.offset width, ?_, serves.placed a.key p cached width⟩
  rw [Table.instruction?, entry, Option.map_some, Entry.forWidth_eq]

theorem entry?_of_build_free (built : Table.build assignments = .ok t) {opcode : UInt8}
    (free : ∀ a ∈ assignments, a.opcode ≠ opcode) : t.entry? opcode = none := by
  obtain ⟨b, rfl, serves⟩ := serves_of_build built
  exact serves.unassigned opcode free

theorem entry?_isSome_iff_of_build (built : Table.build assignments = .ok t) (opcode : UInt8) :
    (∃ e, t.entry? opcode = some e) ↔ ∃ a ∈ assignments, a.opcode = opcode := by
  constructor
  · rintro ⟨e, found⟩
    apply Classical.byContradiction
    intro none
    have free : ∀ a ∈ assignments, a.opcode ≠ opcode := fun a member same => none ⟨a, member, same⟩
    rw [entry?_of_build_free built free] at found
    cases found
  · rintro ⟨a, member, rfl⟩
    obtain ⟨b, rfl, serves⟩ := serves_of_build built
    obtain ⟨p, -, entry⟩ := serves.assigned a member
    exact ⟨_, entry⟩

theorem mem_implemented_iff (t : Table) (opcode : UInt8) (e : Entry) :
    (opcode, e) ∈ t.implemented ↔ t.entry? opcode = some e := by
  simp only [implemented, List.mem_filterMap, List.mem_range, Option.map_eq_some_iff,
    Prod.mk.injEq]
  constructor
  · rintro ⟨n, -, found, entry, rfl, rfl⟩
    exact entry
  · intro entry
    exact ⟨opcode.toNat, opcode.toNat_lt, e, by rwa [UInt8.ofNat_toNat], UInt8.ofNat_toNat, rfl⟩

theorem implemented_ascending (t : Table) : (t.implemented.map (·.1)).Pairwise (· < ·) := by
  rw [implemented, List.pairwise_map, List.pairwise_filterMap]
  refine List.Pairwise.imp_of_mem ?_ List.pairwise_lt_range
  intro low high lowMember highMember less first lowFound second highFound
  obtain ⟨_, -, rfl⟩ := Option.map_eq_some_iff.mp lowFound
  obtain ⟨_, -, rfl⟩ := Option.map_eq_some_iff.mp highFound
  have lowBound := List.mem_range.mp lowMember
  have highBound := List.mem_range.mp highMember
  simp only [UInt8.lt_iff_toNat_lt, UInt8.toNat_ofNat']
  omega

theorem implemented_opcodes (built : Table.build assignments = .ok t) :
    t.implemented.map (·.1) = assignments.map (·.opcode) := by
  have ascending := (build_eq_ok_iff.mp built).1
  refine List.Pairwise.eq_of_mem_iff (implemented_ascending t) (List.pairwise_map.mpr ascending) ?_
  intro opcode
  simp only [List.mem_map, Prod.exists, exists_and_right, exists_eq_right, mem_implemented_iff]
  exact entry?_isSome_iff_of_build built opcode

section

variable {β ε : Type} [Bus β] [Executor ε]

-- A walk through the store never finds an opcode illegal; only the lookup does.
theorem walk_ne_illegal (t : Table) (instruction : Instruction) (width : Width) (error : IllegalOpcode)
    (limit position : Nat) (r : Run β ε) :
    (t.walk instruction width limit position r).1 ≠ .illegal error := by
  induction limit generalizing position r with
  | zero => simp [walk]
  | succ limit ih =>
    rw [walk]
    split
    · simp
    · split
      · exact ih _ _
      · exact ih _ _
      · simp
      · simp

theorem dispatch_of_free (built : Table.build assignments = .ok t) {opcode : UInt8}
    (free : ∀ a ∈ assignments, a.opcode ≠ opcode) (width : Width) (limit : Nat) (m : Machine β ε) :
    t.dispatch limit opcode width m =
      (.illegal ⟨opcode, width⟩, { toMachine := m, cycles := 0, events := #[] }) := by
  rw [dispatch, Table.instruction?, entry?_of_build_free built free, Option.map_none]

theorem free_of_dispatch (built : Table.build assignments = .ok t) {opcode : UInt8} {width : Width}
    {limit : Nat} {m : Machine β ε} {error : IllegalOpcode}
    (failed : (t.dispatch limit opcode width m).1 = .illegal error) :
    ∀ a ∈ assignments, a.opcode ≠ opcode := by
  rintro a assigned rfl
  obtain ⟨offset, found, -⟩ := instruction?_of_build built assigned width
  rw [dispatch, found] at failed
  exact walk_ne_illegal _ _ _ _ _ _ _ failed

theorem assigned_of_dispatch (built : Table.build assignments = .ok t) {opcode : UInt8}
    {width : Width} {limit : Nat} {m : Machine β ε} {verdict : Verdict} {r : Run β ε}
    (ended : t.dispatch limit opcode width m = (verdict, r))
    (legal : ∀ error, verdict ≠ .illegal error) : ∃ a ∈ assignments, a.opcode = opcode := by
  by_contra none
  have free : ∀ a ∈ assignments, a.opcode ≠ opcode := by simpa using none
  rw [dispatch_of_free built free] at ended
  exact legal _ (congrArg Prod.fst ended).symm

end

end Table

structure Table.Realizes (t : Table) (assignments : List Assignment) : Prop where
  -- At both widths an assigned opcode has its operation and the program of its
  -- mode. The end marker follows the program and is no part of it.
  assigned : ∀ a ∈ assignments, ∀ width, ∃ offset,
    t.instruction? a.opcode width = some ⟨offset, a.operation⟩ ∧
      t.program a.opcode width = .ok (a.mode.program a.operation.access width) ∧
      Placed t.store offset (a.mode.program a.operation.access width) ∧
      MicroOp.endOfProgram ∉ a.mode.program a.operation.access width
  unassigned : ∀ opcode, (∀ a ∈ assignments, a.opcode ≠ opcode) → ∀ width,
    t.instruction? opcode width = none ∧ t.program opcode width = .error ⟨opcode, width⟩
  refuses : ∀ {β ε : Type} [Bus β] [Executor ε] (limit : Nat) (opcode : UInt8) (width : Width)
    (m : Machine β ε), (∀ a ∈ assignments, a.opcode ≠ opcode) →
      t.dispatch limit opcode width m =
        (.illegal ⟨opcode, width⟩, { toMachine := m, cycles := 0, events := #[] })
  refusesOnly : ∀ {β ε : Type} [Bus β] [Executor ε] (limit : Nat) (opcode : UInt8) (width : Width)
    (m : Machine β ε) (error : IllegalOpcode), (t.dispatch limit opcode width m).1 = .illegal error →
      ∀ a ∈ assignments, a.opcode ≠ opcode
  opcodes : t.implemented.map (·.1) = assignments.map (·.opcode)
  entries : ∀ opcode entry, (opcode, entry) ∈ t.implemented → ∀ width,
    t.instruction? opcode width = some (entry.forWidth width)

namespace Table

theorem realizes_of_build {assignments : List Assignment} {t : Table}
    (built : Table.build assignments = .ok t) : t.Realizes assignments where
  assigned := by
    intro a member width
    obtain ⟨offset, found, placed⟩ := instruction?_of_build built member width
    have unmarked := a.mode.endOfProgram_not_mem a.operation.access width
    refine ⟨offset, found, ?_, placed, unmarked⟩
    rw [Table.program, found]
    exact congrArg Except.ok (programAt_of_placed placed unmarked)
  unassigned := by
    intro opcode free width
    have missing : t.instruction? opcode width = none := by
      rw [Table.instruction?, entry?_of_build_free built free, Option.map_none]
    exact ⟨missing, by rw [Table.program, missing]⟩
  refuses := fun limit _ width m free => dispatch_of_free built free width limit m
  refusesOnly := fun _ _ _ _ _ failed => free_of_dispatch built failed
  opcodes := implemented_opcodes built
  entries := by
    intro opcode entry member width
    rw [Table.instruction?, (mem_implemented_iff t opcode entry).mp member, Option.map_some]

theorem build_ascending_realizes {assignments : List Assignment}
    (ascending : assignments.Pairwise (·.opcode < ·.opcode)) :
    ∃ t, Table.build assignments = .ok t ∧ t.Realizes assignments :=
  ⟨_, build_of_ascending ascending, realizes_of_build (build_of_ascending ascending)⟩

theorem build_ascending_realizes_opcodeMap :
    opcodeMap.Pairwise (·.opcode < ·.opcode) ∧
      ∃ t, Table.build opcodeMap = .ok t ∧ t.Realizes opcodeMap :=
  ⟨opcodeMap_ascending, build_ascending_realizes opcodeMap_ascending⟩

end Table

end Microcode
