import Microcode.Program.OfMode
import Microcode.Proofs.Execution.Stretch

namespace Microcode

def Construction.marks : Construction → Bool
  | .absoluteIndexed _ _ | .direct | .directIndexed _ | .directIndexedIndirect
  | .directIndirectIndexed _ => true
  | _ => false

-- Whether the marker may be set behind a program, by whether it may be before.
-- A bus cycle spends it.
def Program.marked : Bool → Program → Bool
  | before, [] => before
  | _, .cycle _ :: rest => marked false rest
  | before, .construct c :: rest => marked (before || c.marks) rest
  | before, _ :: rest => marked before rest

theorem Construction.apply_skipNext {c : Construction} {s after : State}
    (applied : c.apply s = .ok after) (quiet : c.marks = false) : after.skipNext = s.skipNext := by
  cases c with
  | absoluteIndexed | direct | directIndexed | directIndexedIndirect | directIndirectIndexed =>
    cases quiet
  | absoluteIndexedIndirect | stackRelativeIndirectIndexed =>
    obtain ⟨sum, -, rfl⟩ := ok_of_map applied
    rfl
  | _ =>
    cases applied
    rfl

theorem Run.cycle_skipNext {β ε : Type} [Bus β] (c : BusCycle) (r : Run β ε) :
    (r.cycle c).2.state.skipNext = r.state.skipNext := by
  unfold cycle
  split
  · dsimp only
    split <;> rfl
  · rfl
  · rfl

section

variable {β ε : Type} [Bus β] [Executor ε] {operation : Operation} {width : Width}

theorem Leads.marked {p : Program} {r next : Run β ε} (leads : Leads operation width p r next)
    {before : Bool} (may : r.state.skipNext = true → before = true)
    (set_ : next.state.skipNext = true) : p.marked before = true := by
  induction leads generalizing before with
  | nil => exact may set_
  | @cons u rest r middle next stepped _ ih =>
    cases u with
    | cycle c =>
      refine ih (fun left => ?_) set_
      rw [Run.step] at stepped
      split at stepped
      · cases stepped
        exact left
      · rename_i clear
        have kept := r.cycle_skipNext c
        rw [stepped, left] at kept
        exact absurd kept.symm clear
    | construct c =>
      refine ih (fun left => ?_) set_
      rw [Run.step] at stepped
      cases applied : c.apply r.state with
      | error cause =>
        rw [applied] at stepped
        cases stepped
      | ok after =>
        rw [applied] at stepped
        cases stepped
        cases quiet : c.marks with
        | true => exact Bool.or_true _
        | false =>
          rw [Construction.apply_skipNext applied quiet] at left
          rw [may left]
          rfl
    | copy c =>
      cases stepped
      exact ih may set_
    | perform =>
      obtain ⟨-, rfl⟩ := Run.of_performed stepped
      exact ih may set_
    | endOfProgram => cases stepped

end

def State.Fresh (s : State) : Prop :=
  s = .holding s.registers [] [] s.dataAddress s.incrementMask s.uncorrected false

theorem State.beginInstruction_fresh (s : State) : s.beginInstruction.Fresh := rfl

theorem State.Fresh.of_clearBuffers {s : State} (clear : s.skipNext = false) :
    (s.withDatapath s.clearBuffers).Fresh := by
  unfold Fresh
  rw [← clear]
  rfl

def BusCycle.isElidable : BusCycle → Bool
  | .idleProgram | .idleUncorrected => true
  | _ => false

def Program.elidesBetween (behind ahead : Program) : Bool :=
  match behind.getLast?, ahead.head? with
  | some (.construct _), some (.cycle c) => c.isElidable
  | _, _ => false

theorem Program.elidesBetween_iff (behind ahead : Program) :
    elidesBetween behind ahead = true ↔
      ∃ front c k rest, behind = front ++ [.construct c] ∧ ahead = .cycle k :: rest ∧
        k.isElidable = true := by
  constructor
  · intro elides
    unfold elidesBetween at elides
    split at elides
    · rename_i c k last first
      obtain ⟨front, rfl⟩ := List.getLast?_eq_some_iff.mp last
      obtain ⟨rest, rfl⟩ := List.head?_eq_some_iff.mp first
      exact ⟨front, c, k, rest, rfl, rfl, elides⟩
    · cases elides
  · rintro ⟨front, c, k, rest, rfl, rfl, elides⟩
    simpa [elidesBetween] using elides

-- Wherever the marker may be set, a construction lies right behind and a cycle
-- that it can elide right ahead.
theorem AddressingMode.elides_of_marked (mode : AddressingMode) (access : Access) (width : Width) :
    ∀ i ≤ (mode.program access width).length,
      Program.marked false ((mode.program access width).take i) = true →
        Program.elidesBetween ((mode.program access width).take i)
          ((mode.program access width).drop i) = true := by
  cases mode <;> cases access <;> cases width <;> decide

theorem AddressingMode.elides_of_split {mode : AddressingMode} {access : Access} {width : Width}
    {behind ahead : Program} (split : mode.program access width = behind ++ ahead)
    (set_ : Program.marked false behind = true) : Program.elidesBetween behind ahead = true := by
  have elides := mode.elides_of_marked access width behind.length (by simp [split])
  rw [split, List.take_left, List.drop_left] at elides
  exact elides set_

section

variable {β ε : Type} [Bus β] [Executor ε] {operation : Operation} {width : Width}

theorem Leads.marked_of_fresh {p : Program} {start r : Run β ε} (fresh : start.state.Fresh)
    (leads : Leads operation width p start r) (set_ : r.state.skipNext = true) :
    p.marked false = true := by
  have clear : start.state.skipNext = false := by
    rw [fresh]
  exact leads.marked (by simp [clear]) set_

theorem Leads.timely {mode : AddressingMode} {access : Access} {start r : Run β ε}
    {behind ahead : Program} {u : MicroOp} (fresh : start.state.Fresh)
    (split : mode.program access width = behind ++ u :: ahead)
    (leads : Leads operation width behind start r) (set_ : r.state.skipNext = true) :
    ∃ c, u = .cycle c ∧ c.isElidable = true := by
  have elides := AddressingMode.elides_of_split split (leads.marked_of_fresh fresh set_)
  obtain ⟨-, -, c, rest, -, same, elidable⟩ := (Program.elidesBetween_iff _ _).mp elides
  cases same
  exact ⟨c, rfl, elidable⟩

theorem Leads.clear_of_fault {mode : AddressingMode} {access : Access} {start r next : Run β ε}
    {behind ahead : Program} {u : MicroOp} {cause : Fault} (fresh : start.state.Fresh)
    (split : mode.program access width = behind ++ u :: ahead)
    (leads : Leads operation width behind start r)
    (faulted : r.step operation width u = (.fault cause, next)) : r.state.skipNext = false := by
  cases set_ : r.state.skipNext with
  | false => rfl
  | true =>
    obtain ⟨c, rfl, -⟩ := leads.timely fresh split set_
    rw [Run.step, if_pos set_] at faulted
    cases faulted

-- At the call of the executor the marker is clear, so a pass that it asks for starts
-- as the first one does.
theorem skipNext_of_called {mode : AddressingMode} {access : Access} {start called : Run β ε}
    {behind ahead : Program} (fresh : start.state.Fresh)
    (split : mode.program access width = behind ++ .perform :: ahead)
    (leads : Leads operation width behind start called) : called.state.skipNext = false := by
  cases set_ : called.state.skipNext with
  | false => rfl
  | true =>
    obtain ⟨c, same, -⟩ := leads.timely fresh split set_
    cases same

theorem skipNext_behind_call {mode : AddressingMode} {access : Access} {start called : Run β ε}
    {behind ahead : Program} (performed : Operation) (fresh : start.state.Fresh)
    (split : mode.program access width = behind ++ .perform :: ahead)
    (leads : Leads operation width behind start called) :
    (called.afterCall performed width).state.skipNext = false := by
  have still := skipNext_of_called fresh split leads
  exact still

theorem Starts.fresh {mode : AddressingMode} {access : Access} {first start : Run β ε}
    (begun : first.state.Fresh)
    (starts : Starts (mode.program access width) operation width first start) :
    start.state.Fresh := by
  induction starts with
  | first => exact begun
  | again _ split leads stepped ih =>
    obtain ⟨rfl, -, rfl⟩ := Run.of_restarted stepped
    have clear := skipNext_of_called ih split leads
    exact .of_clearBuffers clear

end

end Microcode
