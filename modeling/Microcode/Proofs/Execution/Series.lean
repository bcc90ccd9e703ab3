import Microcode.Proofs.Execution.Dispatches

namespace Microcode

structure Once (ε : Type) where
  executor : ε

instance {ε : Type} [Executor ε] : Executor (Once ε) where
  perform e operation width s :=
    let performed := Executor.perform e.executor operation width s
    { completion := .done
      datapath := performed.datapath
      executor := ⟨performed.executor⟩ }

def Machine.once {β ε : Type} (m : Machine β ε) : Machine β (Once ε) where
  state := m.state
  bus := m.bus
  executor := ⟨m.executor⟩

namespace Run

variable {β ε : Type}

def once (r : Run β ε) : Run β (Once ε) where
  toMachine := r.toMachine.once
  cycles := r.cycles
  events := r.events

def followedBy (earlier later : Run β ε) : Run β ε :=
  { later with
    cycles := earlier.cycles + later.cycles
    events := earlier.events ++ later.events }

theorem followedBy_nothing (r : Run β ε) : r.followedBy { r.toMachine with } = r := by
  simp [followedBy]

section

variable [Bus β] (earlier later r : Run β ε)

theorem cycle_followedBy (c : BusCycle) :
    (earlier.followedBy later).cycle c =
      ((later.cycle c).1, earlier.followedBy (later.cycle c).2) := by
  have same : (earlier.followedBy later).state = later.state := rfl
  rw [cycle, cycle, same]
  cases c.transfer later.state.toDatapath with
  | fetch address absorb =>
    cases absorbed : absorb (Bus.fetch later.bus c.space address).1 with
    | ok after | error cause => simp [followedBy, withDatapath, absorbed, Nat.add_assoc]
  | store address byte after => simp [followedBy, withDatapath, Nat.add_assoc]
  | refused cause after => rfl

theorem cycle_once (c : BusCycle) : r.once.cycle c = ((r.cycle c).1, (r.cycle c).2.once) := by
  have same : r.once.state = r.state := rfl
  rw [cycle, cycle, same]
  cases c.transfer r.state.toDatapath with
  | fetch address absorb =>
    cases absorbed : absorb (Bus.fetch r.bus c.space address).1 with
    | ok after | error cause => simp [once, Machine.once, withDatapath, absorbed]
  | store address byte after => rfl
  | refused cause after => rfl

end

variable [Bus β] [Executor ε] {operation : Operation} {width : Width}

theorem step_followedBy (earlier later : Run β ε) (u : MicroOp) :
    (earlier.followedBy later).step operation width u =
      ((later.step operation width u).1, earlier.followedBy (later.step operation width u).2) := by
  cases u with
  | cycle c =>
    have same : (earlier.followedBy later).state = later.state := rfl
    rw [step, step, same]
    split
    · rfl
    · exact cycle_followedBy earlier later c
  | construct c =>
    have same : (earlier.followedBy later).state = later.state := rfl
    rw [step, step, same]
    split <;> rfl
  | copy c => rfl
  | perform =>
    have called : (earlier.followedBy later).afterCall operation width =
        earlier.followedBy (later.afterCall operation width) := by
      simp [afterCall, followedBy]
    by_cases repeated : later.repeats operation width
    · have again : (earlier.followedBy later).repeats operation width := repeated
      rw [step_perform_of_repeats repeated, step_perform_of_repeats again, called]
      rfl
    · have once : ¬ (earlier.followedBy later).repeats operation width := repeated
      rw [step_perform_of_not_repeats repeated, step_perform_of_not_repeats once, called]
  | endOfProgram => rfl

theorem step_once_perform (r : Run β ε) :
    r.once.step operation width .perform = (.next, (r.afterCall operation width).once) := by
  have done : ¬ r.once.repeats operation width := fun repeated => by cases repeated.1
  rw [step_perform_of_not_repeats done]
  rfl

theorem step_once {r next : Run β ε} {u : MicroOp}
    (stepped : r.step operation width u = (.next, next)) :
    r.once.step operation width u = (.next, next.once) := by
  cases u with
  | cycle c =>
    have same : r.once.state = r.state := rfl
    rw [step, same]
    rw [step] at stepped
    by_cases marked : r.state.skipNext
    · rw [if_pos marked] at stepped ⊢
      cases stepped
      rfl
    · rw [if_neg marked] at stepped ⊢
      rw [cycle_once, stepped]
  | construct c =>
    have same : r.once.state = r.state := rfl
    rw [step, same]
    rw [step] at stepped
    split at stepped
    · cases stepped
      rfl
    · cases stepped
  | copy c =>
    cases stepped
    rfl
  | perform =>
    obtain ⟨-, rfl⟩ := of_performed stepped
    exact step_once_perform r
  | endOfProgram => cases stepped

end Run

section

variable {β ε : Type} [Bus β] [Executor ε] {operation : Operation} {width : Width}

theorem Leads.once {q : Program} {r next : Run β ε} (leads : Leads operation width q r next) :
    Leads operation width q r.once next.once := by
  induction leads with
  | nil => exact .nil
  | cons stepped _ ih => exact .cons (Run.step_once stepped) ih

namespace Table

theorem walk_followedBy (t : Table) (instruction : Instruction) (width : Width) (limit position : Nat)
    (earlier later : Run β ε) :
    t.walk instruction width limit position (earlier.followedBy later) =
      ((t.walk instruction width limit position later).1,
        earlier.followedBy (t.walk instruction width limit position later).2) := by
  induction limit generalizing position later with
  | zero => rfl
  | succ limit ih =>
    rw [walk, walk]
    split
    · rfl
    · rename_i u _
      rw [Run.step_followedBy]
      cases later.step instruction.operation width u with
      | mk flow next =>
        cases flow with
        | next | restart => exact ih _ next
        | finish | fault => rfl

def series (t : Table) (limit : Nat) (opcode : UInt8) (width : Width) :
    Nat → Machine β ε → Option (Run β ε)
  | 0, m => some { m with }
  | count + 1, m =>
    match t.dispatch limit opcode width m with
    | (.completed, r) => (t.series limit opcode width count r.toMachine).map r.followedBy
    | _ => none

namespace Holds

variable {t : Table} {a : Assignment} {offset : Nat} {m : Machine β ε} {called : Run β ε}
  {behind ahead : Program}

-- A pass that is asked for is a dispatch on what the executor left. The marker,
-- which only a dispatch clears, is clear already.
theorem dispatch_of_repeats (holds : t.Holds a width offset)
    (split : a.mode.program a.operation.access width = behind ++ .perform :: ahead)
    (leads : Leads a.operation width behind m.begin called)
    (repeated : called.repeats a.operation width) (limit : Nat) :
    t.dispatch (limit + (behind.length + 1)) a.opcode width m =
      let after := called.afterCall a.operation width
      ((t.dispatch limit a.opcode width after.toMachine).1,
        after.followedBy (t.dispatch limit a.opcode width after.toMachine).2) := by
  have clear := skipNext_of_called m.state.beginInstruction_fresh split leads
  have restarted : (called.afterCall a.operation width).withDatapath
      (called.afterCall a.operation width).state.clearBuffers =
        (called.afterCall a.operation width).followedBy
          (called.afterCall a.operation width).toMachine.begin := by
    simp [Run.withDatapath, Run.followedBy, Machine.begin, State.withDatapath,
      State.beginInstruction, Run.afterCall, clear]
  have onward := holds.dispatch_add (holds.passBegins_first m) split leads (limit + 1)
  rw [walk_step holds.placed split called limit, Run.step_perform_of_repeats repeated] at onward
  dsimp only at onward ⊢
  rw [restarted, walk_followedBy, ← holds.dispatch_eq] at onward
  rw [← onward]
  congr 1
  omega

theorem dispatch_once (holds : t.Holds a width offset)
    (split : a.mode.program a.operation.access width = behind ++ [.perform])
    (leads : Leads a.operation width behind m.begin called) {limit : Nat}
    (enough : (a.mode.program a.operation.access width).length < limit) :
    t.dispatch limit a.opcode width m.once =
      (.completed, (called.afterCall a.operation width).once) := by
  have done : ¬ called.once.repeats a.operation width := fun repeated => by cases repeated.1
  have begins := holds.passBegins_first m.once
  rw [← Nat.zero_add (List.length _)] at enough
  exact holds.completes_after_call begins split leads.once done .nil enough

theorem series_once (holds : t.Holds a width offset)
    (split : a.mode.program a.operation.access width = behind ++ [.perform])
    (leads : Leads a.operation width behind m.begin called) {limit : Nat}
    (enough : (a.mode.program a.operation.access width).length < limit) (count : Nat) :
    let after := called.afterCall a.operation width
    t.series limit a.opcode width (count + 1) m.once =
      (t.series limit a.opcode width count after.toMachine.once).map after.once.followedBy := by
  rw [series, holds.dispatch_once split leads enough]
  rfl

end Holds

end Table

end

end Microcode
