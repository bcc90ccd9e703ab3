import Microcode.Bench.Session
import Microcode.Proofs.Execution.Faults
import Microcode.Proofs.Table.Contents

namespace Microcode

inductive Program.Outcome where
  | completed
  | faulted (cause : Fault)
  | unfinished (rest : Program)

namespace Program

section

variable {β ε : Type} [Bus β] [Executor ε]

-- What a dispatch is meant to do, told without a store: the micro-ops come off a
-- list, whose end is the end of the instruction. Every micro-op and the end cost
-- one of the limit.
def interpretFrom (p : Program) (operation : Operation) (width : Width) :
    Nat → Program → Run β ε → Outcome × Run β ε
  | 0, rest, r => (.unfinished rest, r)
  | _ + 1, [], r => (.completed, r)
  | limit + 1, .cycle c :: rest, r =>
    if r.state.skipNext then
      interpretFrom p operation width limit rest { r with state.skipNext := false }
    else match r.cycle c with
      | (.fault cause, r) => (.faulted cause, r)
      | (_, r) => interpretFrom p operation width limit rest r
  | limit + 1, .construct c :: rest, r =>
    match c.apply r.state with
    | .error cause => (.faulted cause, r)
    | .ok after => interpretFrom p operation width limit rest { r with state := after }
  | limit + 1, .copy c :: rest, r =>
    interpretFrom p operation width limit rest
      (r.withDatapath (c.apply width r.state.toDatapath))
  | limit + 1, .perform :: rest, r =>
    let performed := Executor.perform r.executor operation width r.state
    let r := { r with
      executor := performed.executor
      events := r.events.push (.perform operation width r.state)
      state := r.state.withDatapath performed.datapath }
    if performed.completion = .again ∧ (operation = .mvn ∨ operation = .mvp) then
      interpretFrom p operation width limit p
        { r with state.instructionBuffer := .empty, state.dataBuffer := .empty }
    else interpretFrom p operation width limit rest r
  | _ + 1, .endOfProgram :: _, r => (.completed, r)

def interpret (p : Program) (operation : Operation) (width : Width) (limit : Nat)
    (m : Machine β ε) : Outcome × Run β ε :=
  p.interpretFrom operation width limit p { m with state := m.state.beginInstruction }

end

def Outcome.verdict (p : Program) (offset : Nat) : Outcome → Verdict
  | .completed => .completed
  | .faulted cause => .faulted cause
  | .unfinished rest => .unfinished (offset + (p.length - rest.length))

namespace Outcome

variable {p : Program} {offset : Nat} {outcome : Outcome}

theorem verdict_eq_faulted {cause : Fault} (faulted : outcome.verdict p offset = .faulted cause) :
    outcome = .faulted cause := by
  cases outcome with
  | faulted found =>
    cases faulted
    rfl
  | completed | unfinished => cases faulted

theorem verdict_eq_unfinished {position : Nat}
    (stopped : outcome.verdict p offset = .unfinished position) :
    ∃ rest, outcome = .unfinished rest ∧ position = offset + (p.length - rest.length) := by
  cases outcome with
  | unfinished rest =>
    cases stopped
    exact ⟨rest, rfl, rfl⟩
  | completed | faulted => cases stopped

end Outcome

end Program

theorem Operation.isBlockMove_iff (o : Operation) : o.isBlockMove = true ↔ o = .mvn ∨ o = .mvp := by
  cases o <;> decide

theorem Placed.read {store : Array MicroOp} {offset : Nat} {p behind rest : Program}
    (placed : Placed store offset p) (split : p = behind ++ rest) :
    store[offset + behind.length]? = (rest ++ [MicroOp.endOfProgram]).head? := by
  subst split
  rw [placed.getElem? (by simp), List.append_assoc, List.getElem?_append_right (Nat.le_refl _),
    Nat.sub_self, List.head?_eq_getElem?]

section

variable {β ε : Type} [Bus β] [Executor ε]

open Program

theorem Table.walk_eq_interpretFrom {t : Table} {instruction : Instruction} {p : Program}
    (placed : Placed t.store instruction.offset p) (unmarked : MicroOp.endOfProgram ∉ p)
    (width : Width) (limit : Nat) {behind rest : Program} (split : p = behind ++ rest)
    (r : Run β ε) :
    t.walk instruction width limit (instruction.offset + behind.length) r =
      ((p.interpretFrom instruction.operation width limit rest r).1.verdict p instruction.offset,
        (p.interpretFrom instruction.operation width limit rest r).2) := by
  -- The place in the program is left open, since a restart goes back to its front.
  induction limit generalizing behind rest r with
  | zero =>
    have position : p.length - rest.length = behind.length := by simp [split]
    simp only [walk, interpretFrom, Outcome.verdict, position]
  | succ limit ih =>
    have read := placed.read split
    cases rest with
    | nil =>
      rw [walk, read]
      rfl
    | cons u rest =>
      have next : p = (behind ++ [u]) ++ rest := by simp [split]
      have onward := ih next
      rw [List.length_append, List.length_singleton, ← Nat.add_assoc] at onward
      have restart := ih (List.nil_append p).symm
      rw [List.length_nil, Nat.add_zero] at restart
      rw [walk, read]
      simp only [List.cons_append, List.head?_cons]
      cases u with
      | cycle c =>
        rw [Run.step, interpretFrom]
        cases marked : r.state.skipNext with
        | true => exact onward _
        | false =>
          have flow := r.cycle_flow c
          cases ran : r.cycle c with
          | mk f after =>
            rw [ran] at flow
            rcases flow with rfl | ⟨cause, rfl, -⟩
            · exact onward after
            · rfl
      | construct c =>
        rw [Run.step, interpretFrom]
        cases c.apply r.state with
        | error cause => rfl
        | ok after => exact onward _
      | copy c => exact onward _
      | perform =>
        rw [Run.step, Run.perform, interpretFrom]
        generalize Executor.perform r.executor instruction.operation width r.state = performed
        simp only [Operation.isBlockMove_iff]
        by_cases again : performed.completion = .again ∧
            (instruction.operation = .mvn ∨ instruction.operation = .mvp)
        · rw [if_pos again, if_pos again]
          exact restart _
        · rw [if_neg again, if_neg again]
          exact onward _
      | endOfProgram => exact absurd (split ▸ by simp) unmarked

theorem Program.interpretFrom_cons (p : Program) (operation : Operation) (width : Width)
    (limit : Nat) (u : MicroOp) (rest : Program) (r : Run β ε) :
    (p.interpretFrom operation width (limit + 1) (u :: rest) r).1 = .completed ∨
    (∃ cause, (p.interpretFrom operation width (limit + 1) (u :: rest) r).1 = .faulted cause ∧
      cause.InStep) ∨
    ∃ ahead after, (ahead = rest ∨ ahead = p) ∧
      p.interpretFrom operation width (limit + 1) (u :: rest) r =
        p.interpretFrom operation width limit ahead after := by
  cases u with
  | cycle c =>
    rw [interpretFrom]
    split
    · exact .inr (.inr ⟨rest, _, .inl rfl, rfl⟩)
    · have flow := r.cycle_flow c
      cases ran : r.cycle c with
      | mk f after =>
        rw [ran] at flow
        rcases flow with rfl | ⟨cause, rfl, known⟩
        · exact .inr (.inr ⟨rest, after, .inl rfl, rfl⟩)
        · exact .inr (.inl ⟨cause, rfl, known⟩)
  | construct c =>
    rw [interpretFrom]
    cases applied : c.apply r.state with
    | error cause => exact .inr (.inl ⟨cause, rfl, Construction.apply_fault applied⟩)
    | ok after => exact .inr (.inr ⟨rest, _, .inl rfl, rfl⟩)
  | copy c => exact .inr (.inr ⟨rest, _, .inl rfl, rfl⟩)
  | perform =>
    rw [interpretFrom]
    dsimp only
    split
    · exact .inr (.inr ⟨p, _, .inr rfl, rfl⟩)
    · exact .inr (.inr ⟨rest, _, .inl rfl, rfl⟩)
  | endOfProgram => exact .inl rfl

theorem Program.interpretFrom_fault {p : Program} {operation : Operation} {width : Width}
    {limit : Nat} {rest : Program} {r : Run β ε} {cause : Fault}
    (faulted : (p.interpretFrom operation width limit rest r).1 = .faulted cause) :
    cause.InStep := by
  induction limit generalizing rest r with
  | zero => cases faulted
  | succ limit ih =>
    cases rest with
    | nil => cases faulted
    | cons u rest =>
      rcases p.interpretFrom_cons operation width limit u rest r with
        ended | ⟨found, ended, known⟩ | ⟨ahead, after, -, onward⟩
      · rw [ended] at faulted
        cases faulted
      · rw [ended] at faulted
        cases faulted
        exact known
      · rw [onward] at faulted
        exact ih faulted

theorem Program.interpretFrom_suffix {p : Program} {operation : Operation} {width : Width}
    {limit : Nat} {rest ahead : Program} {r : Run β ε} (within : rest <:+ p)
    (stopped : (p.interpretFrom operation width limit rest r).1 = .unfinished ahead) :
    ahead <:+ p := by
  induction limit generalizing rest r with
  | zero =>
    cases stopped
    exact within
  | succ limit ih =>
    cases rest with
    | nil => cases stopped
    | cons u rest =>
      rcases p.interpretFrom_cons operation width limit u rest r with
        ended | ⟨found, ended, -⟩ | ⟨next, after, from_, onward⟩
      · rw [ended] at stopped
        cases stopped
      · rw [ended] at stopped
        cases stopped
      · rw [onward] at stopped
        rcases from_ with rfl | rfl
        · exact ih ((List.suffix_cons u next).trans within) stopped
        · exact ih List.suffix_rfl stopped

-- A dispatch from a built table and an interpretation of the mode's own program
-- agree after any number of steps: in the state, the bus, the executor, the
-- cycles, the calls made in their order, and in how they ended if they have.
-- So they fault alike and go on for ever alike. The dispatch reads no position
-- but those of its program and of the marker behind it.
theorem dispatch_eq_interpret {assignments : List Assignment} {t : Table}
    (built : Table.build assignments = .ok t) {a : Assignment} (assigned : a ∈ assignments)
    (width : Width) :
    let p := a.mode.program a.operation.access width
    ∃ offset, t.instruction? a.opcode width = some ⟨offset, a.operation⟩ ∧
      ∀ (limit : Nat) (m : Machine β ε),
        t.dispatch limit a.opcode width m =
          ((p.interpret a.operation width limit m).1.verdict p offset,
            (p.interpret a.operation width limit m).2) ∧
        (∀ position size,
          (t.dispatch limit a.opcode width m).1 ≠ .faulted (.positionOutOfReach position size)) ∧
        ∀ position, (t.dispatch limit a.opcode width m).1 = .unfinished position →
          ∃ behind ahead, p = behind ++ ahead ∧ position = offset + behind.length ∧
            t.store[position]? = (ahead ++ [MicroOp.endOfProgram]).head? := by
  intro p
  obtain ⟨offset, found, placed⟩ := Table.instruction?_of_build built assigned width
  have unmarked := a.mode.endOfProgram_not_mem a.operation.access width
  refine ⟨offset, found, fun limit m => ?_⟩
  have same : t.dispatch limit a.opcode width m =
      ((p.interpret a.operation width limit m).1.verdict p offset,
        (p.interpret a.operation width limit m).2) := by
    rw [Table.dispatch, found]
    exact Table.walk_eq_interpretFrom placed unmarked width limit (List.nil_append p).symm _
  refine ⟨same, ?_, ?_⟩
  · intro position size faulted
    rw [same] at faulted
    exact Program.interpretFrom_fault (Outcome.verdict_eq_faulted faulted)
  · intro position stopped
    rw [same] at stopped
    obtain ⟨ahead, ended, rfl⟩ := Outcome.verdict_eq_unfinished stopped
    obtain ⟨behind, split⟩ := Program.interpretFrom_suffix List.suffix_rfl ended
    have length : p.length - ahead.length = behind.length := by simp [← split]
    rw [length]
    exact ⟨behind, ahead, split.symm, rfl, placed.read split.symm⟩

theorem dispatch_eq_interpret_blockMove :
    let a : Assignment := ⟨0x54, .blockMove, .mvn⟩
    let p := AddressingMode.blockMove.program .read .sixteen
    Table.build opcodeMap = .ok standardTable ∧ a ∈ opcodeMap ∧
      ∃ offset, standardTable.instruction? 0x54 .sixteen = some ⟨offset, .mvn⟩ ∧
        ∀ (limit : Nat) (m : Machine Bench.Memory Bench.Player),
          standardTable.dispatch limit 0x54 .sixteen m =
            ((p.interpret .mvn .sixteen limit m).1.verdict p offset,
              (p.interpret .mvn .sixteen limit m).2) := by
  intro a p
  have assigned : a ∈ opcodeMap := by decide
  obtain ⟨offset, found, same⟩ :=
    @dispatch_eq_interpret Bench.Memory Bench.Player _ _ _ _ build_opcodeMap a assigned .sixteen
  exact ⟨build_opcodeMap, assigned, offset, found, fun limit m => (same limit m).1⟩

end

end Microcode
