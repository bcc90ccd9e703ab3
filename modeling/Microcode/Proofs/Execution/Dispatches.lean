import Microcode.Proofs.Execution.Marker

namespace Microcode

variable {β ε : Type} [Bus β] [Executor ε]

def Machine.begin (m : Machine β ε) : Run β ε :=
  { m with state := m.state.beginInstruction }

theorem Machine.toList_events_begin {β ε : Type} (m : Machine β ε) : m.begin.events.toList = [] := rfl

namespace Table

def PassBegins (t : Table) (opcode : UInt8) (width : Width) (m : Machine β ε) (steps : Nat)
    (r : Run β ε) : Prop :=
  ∃ instruction, t.instruction? opcode width = some instruction ∧
    t.dispatch steps opcode width m = (.unfinished instruction.offset, r)

def Calls (t : Table) (opcode : UInt8) (width : Width) (m : Machine β ε) (steps : Nat)
    (r : Run β ε) : Prop :=
  ∃ position, t.dispatch steps opcode width m = (.unfinished position, r) ∧
    t.store[position]? = some .perform

def SinglePass (t : Table) (opcode : UInt8) (width : Width) (m : Machine β ε) : Prop :=
  ∀ steps r, t.PassBegins opcode width m steps r → steps = 0

structure Holds (t : Table) (a : Assignment) (width : Width) (offset : Nat) : Prop where
  found : t.instruction? a.opcode width = some ⟨offset, a.operation⟩
  placed : Placed t.store offset (a.mode.program a.operation.access width)

theorem holds_of_build {assignments : List Assignment} {t : Table}
    (built : Table.build assignments = .ok t) {a : Assignment} (assigned : a ∈ assignments)
    (width : Width) : ∃ offset, t.Holds a width offset := by
  obtain ⟨offset, found, placed⟩ := instruction?_of_build built assigned width
  exact ⟨offset, found, placed⟩

namespace Holds

variable {t : Table} {a : Assignment} {width : Width} {offset : Nat} {m : Machine β ε}
  {steps : Nat} {start called r : Run β ε} {behind ahead : Program} {u : MicroOp}

theorem dispatch_eq (holds : t.Holds a width offset) (limit : Nat) (m : Machine β ε) :
    t.dispatch limit a.opcode width m = t.walk ⟨offset, a.operation⟩ width limit offset m.begin := by
  rw [dispatch, holds.found]
  rfl

theorem dispatch_of_passBegins (holds : t.Holds a width offset)
    (begins : t.PassBegins a.opcode width m steps start) :
    t.dispatch steps a.opcode width m = (.unfinished offset, start) := by
  obtain ⟨instruction, found, stopped⟩ := begins
  rw [holds.found] at found
  cases found
  exact stopped

theorem passBegins_iff (holds : t.Holds a width offset) :
    t.PassBegins a.opcode width m steps start ↔
      t.dispatch steps a.opcode width m = (.unfinished offset, start) :=
  ⟨holds.dispatch_of_passBegins, fun stopped => ⟨_, holds.found, stopped⟩⟩

theorem passBegins_first (holds : t.Holds a width offset) (m : Machine β ε) :
    t.PassBegins a.opcode width m 0 m.begin :=
  holds.passBegins_iff.mpr (holds.dispatch_eq 0 m)

theorem stops (holds : t.Holds a width offset) (limit : Nat) (m : Machine β ε) :
    Stops (a.mode.program a.operation.access width) a.operation width m.begin offset
      (t.dispatch limit a.opcode width m) := by
  have placed : Placed t.store (Instruction.mk offset a.operation).offset _ := holds.placed
  have unmarked := a.mode.endOfProgram_not_mem a.operation.access width
  rw [holds.dispatch_eq]
  exact walk_stops placed unmarked limit (List.nil_append _).symm .first .nil

theorem dispatch_add (holds : t.Holds a width offset)
    (begins : t.PassBegins a.opcode width m steps start)
    (split : a.mode.program a.operation.access width = behind ++ ahead)
    (leads : Leads a.operation width behind start r) (more : Nat) :
    t.dispatch (steps + (more + behind.length)) a.opcode width m =
      t.walk ⟨offset, a.operation⟩ width more (offset + behind.length) r := by
  have stopped := holds.dispatch_of_passBegins begins
  rw [holds.dispatch_eq] at stopped ⊢
  rw [walk_add stopped]
  exact walk_leads holds.placed ((List.nil_append _).trans split.symm).symm leads more

theorem reach (holds : t.Holds a width offset)
    (begins : t.PassBegins a.opcode width m steps start)
    (split : a.mode.program a.operation.access width = behind ++ ahead)
    (leads : Leads a.operation width behind start r) :
    t.dispatch (steps + behind.length) a.opcode width m =
      (.unfinished (offset + behind.length), r) := by
  have reached := holds.dispatch_add begins split leads 0
  rwa [Nat.zero_add] at reached

theorem calls (holds : t.Holds a width offset)
    (begins : t.PassBegins a.opcode width m steps start)
    (split : a.mode.program a.operation.access width = behind ++ .perform :: ahead)
    (leads : Leads a.operation width behind start called) :
    t.Calls a.opcode width m (steps + behind.length) called :=
  ⟨_, holds.reach begins split leads, holds.placed.read split⟩

theorem completes (holds : t.Holds a width offset)
    (begins : t.PassBegins a.opcode width m steps start)
    (leads : Leads a.operation width (a.mode.program a.operation.access width) start r) {limit : Nat}
    (enough : steps + (a.mode.program a.operation.access width).length < limit) :
    t.dispatch limit a.opcode width m = (.completed, r) := by
  obtain ⟨more, rfl⟩ := Nat.exists_eq_add_of_lt enough
  have onward := holds.dispatch_add begins (List.append_nil _).symm leads (more + 1)
  rw [walk_end holds.placed r more] at onward
  rw [← onward]
  congr 1
  omega

theorem completes_after_call (holds : t.Holds a width offset)
    (begins : t.PassBegins a.opcode width m steps start)
    (split : a.mode.program a.operation.access width = behind ++ .perform :: ahead)
    (leads : Leads a.operation width behind start called)
    (once : ¬ called.repeats a.operation width)
    (later : Leads a.operation width ahead (called.afterCall a.operation width) r) {limit : Nat}
    (enough : steps + (a.mode.program a.operation.access width).length < limit) :
    t.dispatch limit a.opcode width m = (.completed, r) := by
  refine holds.completes begins ?_ enough
  rw [split]
  exact leads.append (.cons (Run.step_perform_of_not_repeats once) later)

theorem completes_of_yields (holds : t.Holds a width offset)
    (begins : t.PassBegins a.opcode width m steps start)
    (split : a.mode.program a.operation.access width = behind ++ .perform :: ahead)
    (leads : Leads a.operation width behind start called)
    (once : ¬ called.repeats a.operation width) {post : List Event → State → Prop}
    (onward : Yields a.operation width ahead (called.afterCall a.operation width).state post)
    {limit : Nat} (enough : steps + (a.mode.program a.operation.access width).length < limit) :
    ∃ r calls, t.dispatch limit a.opcode width m = (.completed, r) ∧
      r.events.toList =
        called.events.toList ++ .perform a.operation width called.state :: calls ∧
      post calls r.state := by
  obtain ⟨r, calls, later, -, events, -, -, holds_after⟩ := onward.run _ rfl
  refine ⟨r, calls, holds.completes_after_call begins split leads once later enough, ?_,
    holds_after⟩
  rw [events, Run.afterCall, Array.toList_push, List.append_assoc, List.singleton_append]

theorem passBegins_of_repeats (holds : t.Holds a width offset)
    (begins : t.PassBegins a.opcode width m steps start)
    (split : a.mode.program a.operation.access width = behind ++ .perform :: ahead)
    (leads : Leads a.operation width behind start called)
    (repeated : called.repeats a.operation width) :
    t.PassBegins a.opcode width m (steps + behind.length + 1)
      ((called.afterCall a.operation width).withDatapath
        (called.afterCall a.operation width).state.clearBuffers) := by
  have onward := holds.dispatch_add begins split leads 1
  rw [walk_step holds.placed split called 0, Run.step_perform_of_repeats repeated, Nat.add_comm 1,
    ← Nat.add_assoc] at onward
  exact holds.passBegins_iff.mpr onward

theorem starts_of_passBegins (holds : t.Holds a width offset)
    (begins : t.PassBegins a.opcode width m steps start) :
    Starts (a.mode.program a.operation.access width) a.operation width m.begin start := by
  have stops := holds.stops steps m
  rw [holds.dispatch_of_passBegins begins] at stops
  obtain ⟨first, behind, ahead, starts, -, leads, position⟩ := stops.unfinished_parts
  have none : behind = [] := List.length_eq_zero_iff.mp (by omega)
  subst none
  cases leads
  exact starts

theorem fresh_of_passBegins (holds : t.Holds a width offset)
    (begins : t.PassBegins a.opcode width m steps start) : start.state.Fresh :=
  (holds.starts_of_passBegins begins).fresh m.state.beginInstruction_fresh

theorem passBegins_of_starts (holds : t.Holds a width offset)
    (starts : Starts (a.mode.program a.operation.access width) a.operation width m.begin start) :
    ∃ steps, t.PassBegins a.opcode width m steps start := by
  induction starts with
  | first => exact ⟨0, holds.passBegins_first m⟩
  | again _ split leads stepped ih =>
    obtain ⟨steps, begins⟩ := ih
    obtain ⟨rfl, repeated, rfl⟩ := Run.of_restarted stepped
    exact ⟨_, holds.passBegins_of_repeats begins split leads repeated⟩

theorem singlePass (holds : t.Holds a width offset) (single : a.operation.isBlockMove = false) :
    t.SinglePass a.opcode width m := by
  intro steps r begins
  have stopped := holds.dispatch_of_passBegins begins
  rw [holds.dispatch_eq] at stopped
  have found := t.walk_position single stopped
  omega

theorem start_eq_begin (holds : t.Holds a width offset) (single : t.SinglePass a.opcode width m)
    (starts : Starts (a.mode.program a.operation.access width) a.operation width m.begin start) :
    start = m.begin := by
  obtain ⟨steps, begins⟩ := holds.passBegins_of_starts starts
  have zero := single steps start begins
  subst zero
  have one := holds.dispatch_of_passBegins begins
  have two := holds.dispatch_of_passBegins (holds.passBegins_first m)
  rw [one] at two
  cases two
  rfl

theorem not_repeats (holds : t.Holds a width offset) (single : t.SinglePass a.opcode width m)
    (split : a.mode.program a.operation.access width = behind ++ .perform :: ahead)
    (leads : Leads a.operation width behind m.begin called) :
    ¬ called.repeats a.operation width := by
  intro repeated
  have again := holds.passBegins_of_repeats (holds.passBegins_first m) split leads repeated
  exact Nat.succ_ne_zero _ (single _ _ again)

theorem leads_of_completed (holds : t.Holds a width offset) (single : t.SinglePass a.opcode width m)
    (split : a.mode.program a.operation.access width = behind ++ .perform :: ahead)
    (leads : Leads a.operation width behind m.begin called) {limit : Nat}
    (ended : t.dispatch limit a.opcode width m = (.completed, r)) :
    Leads a.operation width ahead (called.afterCall a.operation width) r := by
  have stops := holds.stops limit m
  rw [ended] at stops
  obtain ⟨start, starts, whole⟩ := stops.completed_parts
  cases holds.start_eq_begin single starts
  rw [split] at whole
  obtain ⟨middle, front, back⟩ := whole.split
  cases front.functional leads
  cases back with
  | cons stepped later =>
    obtain ⟨-, rfl⟩ := Run.of_performed stepped
    exact later

end Holds

end Table

end Microcode
