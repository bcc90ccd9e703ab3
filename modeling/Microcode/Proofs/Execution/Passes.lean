import Microcode.Proofs.Execution.Interpreter

namespace Microcode

variable {β ε : Type} [Bus β] [Executor ε] {operation : Operation} {width : Width}

-- A stretch of a program runs from its first micro-op to its last without a
-- fault or a restart.
inductive Leads (operation : Operation) (width : Width) :
    Program → Run β ε → Run β ε → Prop where
  | nil {r : Run β ε} : Leads operation width [] r r
  | cons {u : MicroOp} {rest : Program} {r middle next : Run β ε} :
      r.step operation width u = (.next, middle) → Leads operation width rest middle next →
        Leads operation width (u :: rest) r next

namespace Leads

variable {p q : Program} {r middle next other : Run β ε}

theorem append (front : Leads operation width p r middle)
    (back : Leads operation width q middle next) : Leads operation width (p ++ q) r next := by
  induction front with
  | nil => exact back
  | cons stepped _ ih => exact .cons stepped (ih back)

theorem single {u : MicroOp} (stepped : r.step operation width u = (.next, next)) :
    Leads operation width [u] r next :=
  .cons stepped .nil

theorem split (leads : Leads operation width (p ++ q) r next) :
    ∃ middle, Leads operation width p r middle ∧ Leads operation width q middle next := by
  induction p generalizing r with
  | nil => exact ⟨r, .nil, leads⟩
  | cons u rest ih =>
    cases leads with
    | cons stepped later =>
      obtain ⟨middle, front, back⟩ := ih later
      exact ⟨middle, .cons stepped front, back⟩

theorem functional (one : Leads operation width p r next) (two : Leads operation width p r other) :
    next = other := by
  induction one with
  | nil =>
    cases two
    rfl
  | cons stepped _ ih =>
    cases two with
    | cons again later =>
      rw [stepped] at again
      cases again
      exact ih later

theorem step_ne_fault {u : MicroOp} (leads : Leads operation width (p ++ u :: q) r next)
    (front : Leads operation width p r middle) {cause : Fault} {failed : Run β ε} :
    middle.step operation width u ≠ (.fault cause, failed) := by
  intro faulted
  obtain ⟨between, again, later⟩ := leads.split
  cases again.functional front
  cases later with
  | cons stepped _ =>
    rw [stepped] at faulted
    cases faulted

end Leads

-- The runs from which passes of a program start: the first, and those that a
-- restart leaves.
inductive Starts (p : Program) (operation : Operation) (width : Width) (first : Run β ε) :
    Run β ε → Prop where
  | first : Starts p operation width first first
  | again {start called next : Run β ε} {u : MicroOp} {behind ahead : Program} :
      Starts p operation width first start → p = behind ++ u :: ahead →
        Leads operation width behind start called →
          called.step operation width u = (.restart, next) → Starts p operation width first next

-- Where a dispatch of a program at an offset can stand, or how it can have ended.
inductive Stops (p : Program) (operation : Operation) (width : Width) (first : Run β ε)
    (offset : Nat) : Verdict × Run β ε → Prop where
  | unfinished {start r : Run β ε} {behind ahead : Program} :
      Starts p operation width first start → p = behind ++ ahead →
        Leads operation width behind start r →
          Stops p operation width first offset (.unfinished (offset + behind.length), r)
  | completed {start r : Run β ε} :
      Starts p operation width first start → Leads operation width p start r →
        Stops p operation width first offset (.completed, r)
  | faulted {start middle r : Run β ε} {u : MicroOp} {behind ahead : Program} {cause : Fault} :
      Starts p operation width first start → p = behind ++ u :: ahead →
        Leads operation width behind start middle →
          middle.step operation width u = (.fault cause, r) →
            Stops p operation width first offset (.faulted cause, r)

namespace Stops

variable {p : Program} {first r : Run β ε} {offset : Nat}

theorem unfinished_parts {position : Nat}
    (stops : Stops p operation width first offset (.unfinished position, r)) :
    ∃ start behind ahead, Starts p operation width first start ∧ p = behind ++ ahead ∧
      Leads operation width behind start r ∧ position = offset + behind.length := by
  cases stops with
  | unfinished starts split leads => exact ⟨_, _, _, starts, split, leads, rfl⟩

theorem completed_parts (stops : Stops p operation width first offset (.completed, r)) :
    ∃ start, Starts p operation width first start ∧ Leads operation width p start r := by
  cases stops with
  | completed starts leads => exact ⟨_, starts, leads⟩

theorem faulted_parts {cause : Fault} (stops : Stops p operation width first offset (.faulted cause, r)) :
    ∃ start behind u ahead middle, Starts p operation width first start ∧
      p = behind ++ u :: ahead ∧ Leads operation width behind start middle ∧
      middle.step operation width u = (.fault cause, r) := by
  cases stops with
  | faulted starts split leads stepped => exact ⟨_, _, _, _, _, starts, split, leads, stepped⟩

end Stops

namespace Run

-- What can come of a step. Only an executor can bring about a restart, and only
-- the end marker finishes a program.
theorem step_flow (operation : Operation) (width : Width) (u : MicroOp) (r : Run β ε) :
    (r.step operation width u).1 = .next ∨
    (∃ cause, (r.step operation width u).1 = .fault cause ∧ cause.InStep) ∨
    ((r.step operation width u).1 = .restart ∧ u = .perform) ∨
    (r.step operation width u).1 = .finish ∧ u = .endOfProgram := by
  cases u with
  | cycle c =>
    rw [step]
    split
    · exact .inl rfl
    · rcases r.cycle_flow c with went | failed
      · exact .inl went
      · exact .inr (.inl failed)
  | construct c =>
    rw [step]
    cases applied : c.apply r.state with
    | ok after => exact .inl rfl
    | error cause => exact .inr (.inl ⟨cause, rfl, Construction.apply_fault applied⟩)
  | copy c => exact .inl rfl
  | perform =>
    rw [step, perform]
    dsimp only
    split
    · exact .inr (.inr (.inl ⟨rfl, rfl⟩))
    · exact .inl rfl
  | endOfProgram => exact .inr (.inr (.inr ⟨rfl, rfl⟩))

theorem step_ne_finish {r next : Run β ε} {u : MicroOp} (program : u ≠ .endOfProgram) :
    r.step operation width u ≠ (.finish, next) := by
  intro finished
  have flow := r.step_flow operation width u
  simp [finished, program] at flow

theorem perform_of_restart {r next : Run β ε} {u : MicroOp}
    (restarted : r.step operation width u = (.restart, next)) : u = .perform := by
  have flow := r.step_flow operation width u
  simpa [restarted] using flow

def afterCall (r : Run β ε) (operation : Operation) (width : Width) : Run β ε :=
  { r with
    executor := (Executor.perform r.executor operation width r.state).executor
    events := r.events.push (.perform operation width r.state)
    state := r.state.withDatapath (Executor.perform r.executor operation width r.state).datapath }

def repeats (r : Run β ε) (operation : Operation) (width : Width) : Prop :=
  (Executor.perform r.executor operation width r.state).completion = .again ∧
    operation.isBlockMove = true

theorem step_perform_of_repeats {r : Run β ε} (repeated : r.repeats operation width) :
    r.step operation width .perform =
      (.restart,
        (r.afterCall operation width).withDatapath
          (r.afterCall operation width).state.clearBuffers) := by
  rw [step, perform]
  exact if_pos repeated

theorem step_perform_of_not_repeats {r : Run β ε} (once : ¬ r.repeats operation width) :
    r.step operation width .perform = (.next, r.afterCall operation width) := by
  rw [step, perform]
  exact if_neg once

theorem of_performed {r next : Run β ε}
    (performed : r.step operation width .perform = (.next, next)) :
    ¬ r.repeats operation width ∧ next = r.afterCall operation width := by
  by_cases repeated : r.repeats operation width
  · rw [step_perform_of_repeats repeated] at performed
    cases performed
  · rw [step_perform_of_not_repeats repeated] at performed
    cases performed
    exact ⟨repeated, rfl⟩

theorem perform_ne_fault {r next : Run β ε} {cause : Fault} :
    r.step operation width .perform ≠ (.fault cause, next) := by
  intro faulted
  by_cases repeated : r.repeats operation width
  · rw [step_perform_of_repeats repeated] at faulted
    cases faulted
  · rw [step_perform_of_not_repeats repeated] at faulted
    cases faulted

theorem repeats_of_restart {r next : Run β ε}
    (restarted : r.step operation width .perform = (.restart, next)) :
    r.repeats operation width := by
  by_cases repeated : r.repeats operation width
  · exact repeated
  · rw [step_perform_of_not_repeats repeated] at restarted
    cases restarted

theorem of_restarted {r next : Run β ε} {u : MicroOp}
    (restarted : r.step operation width u = (.restart, next)) :
    u = .perform ∧ r.repeats operation width ∧
      next = (r.afterCall operation width).withDatapath
        (r.afterCall operation width).state.clearBuffers := by
  cases perform_of_restart restarted
  have repeated := repeats_of_restart restarted
  rw [step_perform_of_repeats repeated] at restarted
  cases restarted
  exact ⟨rfl, repeated, rfl⟩

end Run

namespace Table

variable {t : Table} {instruction : Instruction} {p : Program}

theorem walk_stops (placed : Placed t.store instruction.offset p)
    (unmarked : MicroOp.endOfProgram ∉ p) {first : Run β ε} (limit : Nat)
    {behind ahead : Program} (split : p = behind ++ ahead) {start r : Run β ε}
    (starts : Starts p instruction.operation width first start)
    (leads : Leads instruction.operation width behind start r) :
    Stops p instruction.operation width first instruction.offset
      (t.walk instruction width limit (instruction.offset + behind.length) r) := by
  induction limit generalizing behind ahead start r with
  | zero => exact .unfinished starts split leads
  | succ limit ih =>
    rw [walk, placed.read split]
    cases ahead with
    | nil =>
      rw [List.append_nil] at split
      subst split
      exact .completed starts leads
    | cons u ahead =>
      have program : u ≠ .endOfProgram := by
        rintro rfl
        exact unmarked (by simp [split])
      have further : p = (behind ++ [u]) ++ ahead := by simp [split]
      simp only [List.cons_append, List.head?_cons]
      cases stepped : r.step instruction.operation width u with
      | mk flow next =>
        cases flow with
        | next =>
          have onward := ih further starts (leads.append (.single stepped))
          rw [List.length_append, List.length_singleton, ← Nat.add_assoc] at onward
          exact onward
        | restart =>
          exact ih (List.nil_append p).symm (.again starts split leads stepped) .nil
        | finish => exact absurd stepped (Run.step_ne_finish program)
        | fault cause => exact .faulted starts split leads stepped

theorem walk_leads (placed : Placed t.store instruction.offset p)
    {behind q ahead : Program} (split : p = behind ++ (q ++ ahead)) {r next : Run β ε}
    (leads : Leads instruction.operation width q r next) (limit : Nat) :
    t.walk instruction width (limit + q.length) (instruction.offset + behind.length) r =
      t.walk instruction width limit (instruction.offset + (behind ++ q).length) next := by
  induction leads generalizing behind with
  | nil => simp
  | @cons u rest r middle next stepped _ ih =>
    have further : p = (behind ++ [u]) ++ (rest ++ ahead) := by simp [split]
    have onward := ih further
    rw [List.length_append, List.length_singleton, ← Nat.add_assoc] at onward
    rw [List.length_cons, ← Nat.add_assoc, walk, placed.read split]
    simp only [List.cons_append, List.head?_cons, stepped]
    rw [onward]
    simp

theorem walk_step (placed : Placed t.store instruction.offset p) {behind ahead : Program}
    {u : MicroOp} (split : p = behind ++ u :: ahead) (r : Run β ε) (limit : Nat) :
    t.walk instruction width (limit + 1) (instruction.offset + behind.length) r =
      match r.step instruction.operation width u with
      | (.next, r) =>
        t.walk instruction width limit (instruction.offset + behind.length + 1) r
      | (.restart, r) => t.walk instruction width limit instruction.offset r
      | (.finish, r) => (.completed, r)
      | (.fault cause, r) => (.faulted cause, r) := by
  rw [walk, placed.read split]
  rfl

theorem walk_end (placed : Placed t.store instruction.offset p) (r : Run β ε) (limit : Nat) :
    t.walk instruction width (limit + 1) (instruction.offset + p.length) r = (.completed, r) := by
  rw [walk, placed.read (List.append_nil p).symm]
  rfl

theorem walk_add {steps position found : Nat} {r next : Run β ε}
    (stopped : t.walk instruction width steps position r = (.unfinished found, next)) (more : Nat) :
    t.walk instruction width (steps + more) position r = t.walk instruction width more found next := by
  induction steps generalizing position r with
  | zero =>
    cases stopped
    rw [Nat.zero_add]
  | succ steps ih =>
    rw [Nat.succ_add, walk]
    rw [walk] at stopped
    split
    · rename_i missing
      rw [missing] at stopped
      cases stopped
    · rename_i u present
      rw [present] at stopped
      dsimp only at stopped ⊢
      cases stepped : r.step instruction.operation width u with
      | mk flow after =>
        rw [stepped] at stopped
        cases flow with
        | next | restart => exact ih stopped
        | finish | fault => cases stopped

theorem walk_position (t : Table) {operation : Operation} (single : operation.isBlockMove = false)
    {offset limit position found : Nat} {r next : Run β ε}
    (stopped : t.walk ⟨offset, operation⟩ width limit position r = (.unfinished found, next)) :
    found = position + limit := by
  induction limit generalizing position r with
  | zero =>
    cases stopped
    rfl
  | succ limit ih =>
    rw [walk] at stopped
    split at stopped
    · cases stopped
    · rename_i u _
      dsimp only at stopped
      cases stepped : r.step operation width u with
      | mk flow after =>
        rw [stepped] at stopped
        cases flow with
        | next =>
          have onward := ih stopped
          omega
        | restart =>
          cases Run.perform_of_restart stepped
          have granted := (Run.repeats_of_restart stepped).2
          rw [single] at granted
          cases granted
        | finish | fault => cases stopped

end Table

end Microcode
