import Microcode.Proofs.Execution.Dispatches

namespace Microcode

def Flow.verdict (offset position : Nat) : Flow → Verdict
  | .next => .unfinished (position + 1)
  | .restart => .unfinished offset
  | .finish => .completed
  | .fault cause => .faulted cause

def Verdict.isFinal : Verdict → Bool
  | .unfinished _ => false
  | _ => true

namespace Table

section

variable {β ε : Type}

def walkBy (step : MicroOp → Run β ε → Flow × Run β ε) (t : Table) (offset : Nat) :
    Nat → Nat → Run β ε → Verdict × Run β ε
  | 0, position, r => (.unfinished position, r)
  | limit + 1, position, r =>
    match t.store[position]? with
    | none => (.faulted (.positionOutOfReach position t.store.size), r)
    | some u =>
      match step u r with
      | (.next, r) => walkBy step t offset limit (position + 1) r
      | (.restart, r) => walkBy step t offset limit offset r
      | (.finish, r) => (.completed, r)
      | (.fault cause, r) => (.faulted cause, r)

variable {step : MicroOp → Run β ε → Flow × Run β ε} {t : Table} {offset position : Nat}

theorem walkBy_one (t : Table) {u : MicroOp} (read : t.store[position]? = some u) (r : Run β ε) :
    t.walkBy step offset 1 position r = ((step u r).1.verdict offset position, (step u r).2) := by
  rw [walkBy, read]
  dsimp only
  cases step u r with
  | mk flow next => cases flow <;> rfl

theorem walkBy_succ (step : MicroOp → Run β ε → Flow × Run β ε) (t : Table)
    (offset limit position : Nat) (r : Run β ε) :
    t.walkBy step offset (limit + 1) position r =
      match t.walkBy step offset limit position r with
      | (.unfinished found, next) => t.walkBy step offset 1 found next
      | ended => ended := by
  induction limit generalizing position r with
  | zero => rfl
  | succ limit ih =>
    rw [walkBy]
    conv_rhs => rw [walkBy]
    cases t.store[position]? with
    | none => rfl
    | some u =>
      dsimp only
      cases step u r with
      | mk flow next =>
        cases flow with
        | next => exact ih (position + 1) next
        | restart => exact ih offset next
        | finish | fault => rfl

end

variable {β ε : Type} [Bus β] [Executor ε]

theorem walk_eq_walkBy (t : Table) (instruction : Instruction) (width : Width) (limit position : Nat)
    (r : Run β ε) :
    t.walk instruction width limit position r =
      t.walkBy (Run.step instruction.operation width) instruction.offset limit position r := by
  induction limit generalizing position r with
  | zero => rfl
  | succ limit ih =>
    rw [walk, walkBy]
    cases t.store[position]? with
    | none => rfl
    | some u =>
      dsimp only
      cases r.step instruction.operation width u with
      | mk flow next =>
        cases flow with
        | next | restart => exact ih _ next
        | finish | fault => rfl

-- After a number of steps of a dispatch a micro-op comes next.
structure Meets (t : Table) (opcode : UInt8) (width : Width) (m : Machine β ε) (steps position : Nat)
    (u : MicroOp) (r : Run β ε) : Prop where
  stands : t.dispatch steps opcode width m = (.unfinished position, r)
  read : t.store[position]? = some u

theorem calls_iff (t : Table) (opcode : UInt8) (width : Width) (m : Machine β ε) (steps : Nat)
    (r : Run β ε) :
    t.Calls opcode width m steps r ↔ ∃ position, t.Meets opcode width m steps position .perform r :=
  ⟨fun ⟨position, stands, read⟩ => ⟨position, stands, read⟩,
    fun ⟨position, meets⟩ => ⟨position, meets.stands, meets.read⟩⟩

namespace Holds

variable {t : Table} {a : Assignment} {width : Width} {offset : Nat} {m : Machine β ε}
  {steps position : Nat} {r : Run β ε} {u : MicroOp}

theorem dispatch_succ (holds : t.Holds a width offset) (limit : Nat) (m : Machine β ε) :
    t.dispatch (limit + 1) a.opcode width m =
      match t.dispatch limit a.opcode width m with
      | (.unfinished found, next) => t.walk ⟨offset, a.operation⟩ width 1 found next
      | ended => ended := by
  simp only [holds.dispatch_eq, walk_eq_walkBy]
  exact walkBy_succ ..

theorem dispatch_of_meets (holds : t.Holds a width offset)
    (meets : t.Meets a.opcode width m steps position u r) :
    t.dispatch (steps + 1) a.opcode width m =
      ((r.step a.operation width u).1.verdict offset position, (r.step a.operation width u).2) := by
  rw [holds.dispatch_succ, meets.stands]
  dsimp only
  rw [walk_eq_walkBy]
  exact walkBy_one t meets.read r

theorem dispatch_of_final (holds : t.Holds a width offset)
    (final : (t.dispatch steps a.opcode width m).1.isFinal) (more : Nat) :
    t.dispatch (steps + more) a.opcode width m = t.dispatch steps a.opcode width m := by
  induction more with
  | zero => rfl
  | succ more ih =>
    rw [← Nat.add_assoc, holds.dispatch_succ, ih]
    split
    · rename_i stands
      rw [stands] at final
      cases final
    · rfl

theorem parts_of_stands (holds : t.Holds a width offset)
    (stands : t.dispatch steps a.opcode width m = (.unfinished position, r)) :
    ∃ start behind ahead,
      Starts (a.mode.program a.operation.access width) a.operation width m.begin start ∧
      a.mode.program a.operation.access width = behind ++ ahead ∧
      Leads a.operation width behind start r ∧ position = offset + behind.length ∧
      t.store[position]? = (ahead ++ [MicroOp.endOfProgram]).head? := by
  have stops := holds.stops steps m
  rw [stands] at stops
  obtain ⟨start, behind, ahead, starts, split, leads, rfl⟩ := stops.unfinished_parts
  exact ⟨start, behind, ahead, starts, split, leads, rfl, holds.placed.read split⟩

theorem parts_of_meets (holds : t.Holds a width offset)
    (meets : t.Meets a.opcode width m steps position u r) (program : u ≠ .endOfProgram) :
    ∃ start behind ahead,
      Starts (a.mode.program a.operation.access width) a.operation width m.begin start ∧
      a.mode.program a.operation.access width = behind ++ u :: ahead ∧
      Leads a.operation width behind start r ∧ position = offset + behind.length := by
  obtain ⟨start, behind, ahead, starts, split, leads, found, read⟩ := holds.parts_of_stands meets.stands
  rw [meets.read] at read
  cases ahead with
  | nil =>
    cases read
    exact absurd rfl program
  | cons v rest =>
    cases read
    exact ⟨start, behind, rest, starts, split, leads, found⟩

theorem meets_next (holds : t.Holds a width offset)
    (stands : t.dispatch steps a.opcode width m = (.unfinished position, r)) :
    ∃ u, t.Meets a.opcode width m steps position u r := by
  obtain ⟨-, -, ahead, -, -, -, -, read⟩ := holds.parts_of_stands stands
  cases ahead with
  | nil => exact ⟨_, stands, read⟩
  | cons u rest => exact ⟨_, stands, read⟩

theorem meets_of_stands (holds : t.Holds a width offset)
    (stands : t.dispatch (steps + 1) a.opcode width m = (.unfinished position, r)) :
    ∃ found u before, t.Meets a.opcode width m steps found u before ∧
      (before.step a.operation width u = (.next, r) ∧ position = found + 1 ∨
        before.step a.operation width u = (.restart, r) ∧ position = offset) := by
  rw [holds.dispatch_succ] at stands
  split at stands
  · rename_i found before earlier
    obtain ⟨u, meets⟩ := holds.meets_next earlier
    refine ⟨found, u, before, meets, ?_⟩
    rw [walk_eq_walkBy, walkBy_one t meets.read] at stands
    obtain ⟨flow, next⟩ := Prod.mk.inj stands
    cases stepped : before.step a.operation width u with
    | mk came after =>
      rw [stepped] at flow next
      cases next
      cases came with
      | next =>
        cases flow
        exact .inl ⟨rfl, rfl⟩
      | restart =>
        cases flow
        exact .inr ⟨rfl, rfl⟩
      | finish | fault => cases flow
  · rename_i ended
    exact absurd stands (ended position r)

end Holds

end Table

end Microcode
