import Microcode.Proofs.Mode.Overfilling
import Microcode.Proofs.Mode.Repetition
import Microcode.Proofs.Mode.Targets

namespace Microcode

section

variable {β ε : Type} [Bus β] {operation : Operation} {width : Width}

theorem Run.performs_cycle (c : BusCycle) (r : Run β ε) :
    Event.performs (r.cycle c).2.events = Event.performs r.events := by
  unfold cycle
  split
  · dsimp only
    split
    · exact Event.performs_push ..
    · exact Event.performs_push ..
  · exact Event.performs_push ..
  · rfl

variable [Executor ε]

theorem Run.performs_step (operation : Operation) (width : Width) {u : MicroOp}
    (own : u ≠ .perform) (r : Run β ε) :
    Event.performs (r.step operation width u).2.events = Event.performs r.events := by
  cases u with
  | cycle c =>
    rw [step]
    split
    · rfl
    · exact r.performs_cycle c
  | construct c =>
    rw [step]
    split
    · rfl
    · rfl
  | copy | endOfProgram => rfl
  | perform => exact absurd rfl own

theorem Leads.performs {q : Program} {r next : Run β ε} (leads : Leads operation width q r next)
    (own : .perform ∉ q) : Event.performs next.events = Event.performs r.events := by
  induction leads with
  | nil => rfl
  | @cons u rest r middle next stepped _ ih =>
    obtain ⟨apart, others⟩ := List.ne_and_not_mem_of_not_mem_cons own
    have kept := Run.performs_step operation width apart.symm r
    rw [stepped] at kept
    exact (ih others).trans kept

theorem leads_or_faults (operation : Operation) (width : Width) {q : Program} (own : .perform ∉ q)
    (program : .endOfProgram ∉ q) (r : Run β ε) :
    (∃ next, Leads operation width q r next) ∨
      ∃ front u back middle cause failed, q = front ++ u :: back ∧
        Leads operation width front r middle ∧
        middle.step operation width u = (.fault cause, failed) := by
  induction q generalizing r with
  | nil => exact .inl ⟨r, .nil⟩
  | cons u rest ih =>
    obtain ⟨apart, others⟩ := List.ne_and_not_mem_of_not_mem_cons own
    obtain ⟨unmarked, behind⟩ := List.ne_and_not_mem_of_not_mem_cons program
    have flows := r.step_flow operation width u
    cases stepped : r.step operation width u with
    | mk flow middle =>
      rw [stepped] at flows
      rcases flows with rfl | ⟨cause, rfl, -⟩ | ⟨-, same⟩ | ⟨-, same⟩
      · rcases ih others behind middle with ⟨next, leads⟩ |
          ⟨front, v, back, there, cause, failed, rfl, leads, faulted⟩
        · exact .inl ⟨next, .cons stepped leads⟩
        · exact .inr ⟨u :: front, v, back, there, cause, failed, rfl, .cons stepped leads, faulted⟩
      · exact .inr ⟨[], u, rest, r, cause, middle, rfl, .nil, stepped⟩
      · exact absurd same.symm apart
      · exact absurd same.symm unmarked

namespace Table

def NeverFaults (t : Table) (opcode : UInt8) (width : Width) (m : Machine β ε) : Prop :=
  ∀ limit cause, (t.dispatch limit opcode width m).1 ≠ .faulted cause

def EndsIn (t : Table) (opcode : UInt8) (width : Width) (m : Machine β ε) (steps calls : Nat) :
    Prop :=
  ∃ position r, t.Meets opcode width m steps position .endOfProgram r ∧
    Event.performs r.events = calls ∧
    ∀ limit, steps < limit → t.dispatch limit opcode width m = (.completed, r)

def Honours (t : Table) (a : Assignment) (width : Width) (m : Machine β ε) (count : Nat) : Prop :=
  ∀ steps called, t.Calls a.opcode width m steps called →
    (Event.performs called.events < count → called.repeats a.operation width) ∧
      (Event.performs called.events = count → ¬ called.repeats a.operation width)

def AsksForEver (t : Table) (a : Assignment) (width : Width) (m : Machine β ε) : Prop :=
  (∀ steps called, t.Calls a.opcode width m steps called →
    called.answer a.operation width = .again) ∧
  ∀ count, ∃ steps called, t.Calls a.opcode width m steps called ∧
    Event.performs called.events = count

variable {t : Table} {a : Assignment} {offset steps count : Nat} {m : Machine β ε}
  {start called : Run β ε}

theorem AsksAgain.honours (asks : t.AsksAgain a width m count) (moves : a.operation.isBlockMove) :
    t.Honours a width m count := by
  intro steps called calls
  obtain ⟨again, done⟩ := asks steps called calls
  refine ⟨fun less => ⟨again less, moves⟩, fun same repeated => ?_⟩
  cases (done same).symm.trans repeated.1

theorem honours_zero (single : a.operation.isBlockMove = false) : t.Honours a width m 0 := by
  intro steps called calls
  refine ⟨nofun, fun _ repeated => ?_⟩
  cases single.symm.trans repeated.2

namespace Holds

theorem called_of_passBegins (holds : t.Holds a width offset)
    (begins : t.PassBegins a.opcode width m steps start) :
    ∃ called, Leads a.operation width (a.mode.prelude a.operation.access width) start called ∧
      t.Calls a.opcode width m (steps + (a.mode.prelude a.operation.access width).length) called ∧
      Event.performs called.events = Event.performs start.events := by
  obtain ⟨called, leads⟩ :=
    leads_to_call a.mode a.operation.access a.operation (holds.fresh_of_passBegins begins)
  have split := a.mode.program_eq a.operation.access width
  exact ⟨called, leads, holds.calls begins split leads,
    leads.performs (a.mode.perform_not_mem_prelude a.operation.access width)⟩

theorem endsIn_of_called (holds : t.Holds a width offset) (calm : t.NeverFaults a.opcode width m)
    (begins : t.PassBegins a.opcode width m steps start)
    (leads : Leads a.operation width (a.mode.prelude a.operation.access width) start called)
    (once : ¬ called.repeats a.operation width) :
    t.EndsIn a.opcode width m (steps + (a.mode.program a.operation.access width).length)
      (Event.performs called.events + 1) := by
  have split := a.mode.program_eq a.operation.access width
  have own := a.mode.perform_not_mem_finale a.operation.access width
  have program : .endOfProgram ∉ a.mode.finale a.operation.access width := fun member =>
    a.mode.endOfProgram_not_mem a.operation.access width (by simp [split, member])
  have performed := Run.step_perform_of_not_repeats once
  rcases leads_or_faults a.operation width own program
    (called.afterCall a.operation width) with ⟨r, later⟩ |
      ⟨front, u, back, middle, cause, failed, finale, later, faulted⟩
  · have whole : Leads a.operation width (a.mode.program a.operation.access width) start r := by
      rw [split]
      exact leads.append (.cons performed later)
    have ends := (List.append_nil (a.mode.program a.operation.access width)).symm
    refine ⟨_, r, ⟨holds.reach begins ends whole, holds.placed.read ends⟩, ?_, ?_⟩
    · rw [later.performs own, Run.performs_afterCall]
    · exact fun limit enough => holds.completes begins whole enough
  · have parts : a.mode.program a.operation.access width =
        (a.mode.prelude a.operation.access width ++ .perform :: front) ++ u :: back := by
      rw [split, finale, List.append_assoc, List.cons_append]
    have stopped := holds.dispatch_add begins parts (leads.append (.cons performed later)) 1
    rw [walk_step holds.placed parts middle 0, faulted] at stopped
    exact absurd (congrArg Prod.fst stopped) (calm _ cause)

theorem passBegins_of_honours (holds : t.Holds a width offset) (honours : t.Honours a width m count)
    (i : Nat) (within : i ≤ count) :
    ∃ start, t.PassBegins a.opcode width m
        (i * ((a.mode.prelude a.operation.access width).length + 1)) start ∧
      Event.performs start.events = i := by
  induction i with
  | zero =>
    rw [Nat.zero_mul]
    exact ⟨m.begin, holds.passBegins_first m, rfl⟩
  | succ i ih =>
    obtain ⟨start, begins, so_far⟩ := ih (Nat.le_of_succ_le within)
    obtain ⟨called, leads, calls, same⟩ := holds.called_of_passBegins begins
    have repeated := (honours _ called calls).1 (by omega)
    have split := a.mode.program_eq a.operation.access width
    have next := holds.passBegins_of_repeats begins split leads repeated
    rw [Nat.add_assoc, ← Nat.succ_mul] at next
    refine ⟨_, next, ?_⟩
    have one := called.performs_afterCall a.operation width
    rw [same, so_far] at one
    exact one

theorem endsIn_of_honours (holds : t.Holds a width offset) (calm : t.NeverFaults a.opcode width m)
    (honours : t.Honours a width m count) :
    t.EndsIn a.opcode width m
      (count * ((a.mode.prelude a.operation.access width).length + 1) +
        (a.mode.program a.operation.access width).length) (count + 1) := by
  obtain ⟨start, begins, so_far⟩ := holds.passBegins_of_honours honours count (Nat.le_refl _)
  obtain ⟨called, leads, calls, same⟩ := holds.called_of_passBegins begins
  rw [so_far] at same
  have once := (honours _ called calls).2 same
  have ends := holds.endsIn_of_called calm begins leads once
  rwa [same] at ends

-- Where no store behind the call takes the highest byte, nothing the executor
-- leaves can make the dispatch fault.
theorem neverFaults_of_storesDown (holds : t.Holds a width offset)
    (up : a.mode.storesDown width = false) (m : Machine β ε) : t.NeverFaults a.opcode width m := by
  intro limit cause faulted
  obtain ⟨steps, called, overruns⟩ := holds.overruns_of_faulted (Prod.ext faulted rfl)
  cases up.symm.trans overruns.storesDown

theorem repeats_of_endless (holds : t.Holds a width offset)
    (endless : ∀ limit, (t.dispatch limit a.opcode width m).1.isFinal = false)
    (calls : t.Calls a.opcode width m steps called) : called.repeats a.operation width := by
  obtain ⟨first, start, begins, -, leads⟩ := holds.pass_of_calls calls
  have calm : t.NeverFaults a.opcode width m := by
    intro limit cause faulted
    have going := endless limit
    rw [faulted] at going
    cases going
  by_contra once
  obtain ⟨position, r, -, -, completed⟩ := holds.endsIn_of_called calm begins leads once
  have final := congrArg (·.1.isFinal) (completed _ (Nat.lt_succ_self _))
  exact Bool.false_ne_true ((endless _).symm.trans final)

theorem calls_of_endless (holds : t.Holds a width offset)
    (endless : ∀ limit, (t.dispatch limit a.opcode width m).1.isFinal = false) (count : Nat) :
    ∃ steps called, t.Calls a.opcode width m steps called ∧
      Event.performs called.events = count := by
  induction count with
  | zero =>
    obtain ⟨called, -, calls, none⟩ := holds.called_of_passBegins (holds.passBegins_first m)
    exact ⟨_, called, calls, none⟩
  | succ count ih =>
    obtain ⟨steps, called, calls, made⟩ := ih
    have repeated := holds.repeats_of_endless endless calls
    obtain ⟨first, start, begins, -, leads⟩ := holds.pass_of_calls calls
    have split := a.mode.program_eq a.operation.access width
    have onward := holds.passBegins_of_repeats begins split leads repeated
    obtain ⟨later, -, again, same⟩ := holds.called_of_passBegins onward
    refine ⟨_, later, again, same.trans ?_⟩
    rw [← made]
    exact called.performs_afterCall a.operation width

theorem endless_of_repeats (holds : t.Holds a width offset)
    (always : ∀ steps called, t.Calls a.opcode width m steps called →
      called.repeats a.operation width) (limit : Nat) :
    (t.dispatch limit a.opcode width m).1.isFinal = false := by
  cases ended : t.dispatch limit a.opcode width m with
  | mk verdict r =>
    have stops := holds.stops limit m
    rw [ended] at stops
    cases verdict with
    | unfinished position => rfl
    | illegal error => cases stops
    | completed =>
      obtain ⟨start, starts, whole⟩ := stops.completed_parts
      obtain ⟨steps, begins⟩ := holds.passBegins_of_starts starts
      have split := a.mode.program_eq a.operation.access width
      rw [split] at whole
      obtain ⟨called, leads, later⟩ := whole.split
      have repeated := always _ called (holds.calls begins split leads)
      cases later with
      | cons performed _ => exact absurd repeated (Run.of_performed performed).1
    | faulted cause =>
      obtain ⟨steps, called, overruns⟩ := holds.overruns_of_faulted ended
      exact absurd (always steps called overruns.calls) overruns.goesOn

theorem endless_iff (holds : t.Holds a width offset) :
    (∀ limit, (t.dispatch limit a.opcode width m).1.isFinal = false) ↔
      a.operation.isBlockMove ∧ t.AsksForEver a width m := by
  constructor
  · intro endless
    obtain ⟨steps, called, calls, -⟩ := holds.calls_of_endless endless 0
    refine ⟨(holds.repeats_of_endless endless calls).2, ?_, holds.calls_of_endless endless⟩
    exact fun steps called calls => (holds.repeats_of_endless endless calls).1
  · rintro ⟨moves, again, -⟩
    exact holds.endless_of_repeats fun steps called calls => ⟨again steps called calls, moves⟩

theorem called_for (holds : t.Holds a width offset) (limit : Nat) (m : Machine β ε) :
    ∀ e ∈ (t.dispatch limit a.opcode width m).2.events,
      e.isBusCall ∨ ∃ s, e = .perform a.operation width s := by
  rw [holds.dispatch_eq]
  refine t.walk_keeps _ width limit
    (fun r => ∀ e ∈ r.events, e.isBusCall ∨ ∃ s, e = .perform a.operation width s) ?_
    (by simp [Machine.begin])
  intro r next adds earlier
  cases adds with
  | nothing => exact earlier
  | fetch | store =>
    intro e member
    rcases Array.mem_push.mp member with before | rfl
    · exact earlier e before
    · exact .inl rfl
  | perform =>
    intro e member
    rcases Array.mem_push.mp member with before | rfl
    · exact earlier e before
    · exact .inr ⟨r.state, rfl⟩

end Holds

structure PerformsOncePerPass (t : Table) (a : Assignment) (width : Width) (m : Machine β ε)
    (length : Nat) : Prop where
  calledFor : ∀ limit, ∀ e ∈ (t.dispatch limit a.opcode width m).2.events,
    e.isBusCall ∨ ∃ s, e = .perform a.operation width s
  once : a.operation.isBlockMove = false → t.NeverFaults a.opcode width m →
    t.EndsIn a.opcode width m length 1
  repeated : a.operation.isBlockMove → t.NeverFaults a.opcode width m →
    ∀ count, t.AsksAgain a width m count →
      ∃ steps < (count + 1) * (length + 1), t.EndsIn a.opcode width m steps (count + 1)
  endless : (∀ limit, (t.dispatch limit a.opcode width m).1.isFinal = false) ↔
    a.operation.isBlockMove ∧ t.AsksForEver a width m

theorem performs_once_per_pass {assignments : List Assignment} {t : Table}
    (built : Table.build assignments = .ok t) {a : Assignment} (assigned : a ∈ assignments)
    (width : Width) (m : Machine β ε) :
    ∃ p, t.program a.opcode width = .ok p ∧ t.PerformsOncePerPass a width m p.length := by
  obtain ⟨-, -, program, -⟩ := (realizes_of_build built).assigned a assigned width
  obtain ⟨offset, holds⟩ := holds_of_build built assigned width
  refine ⟨_, program, ⟨fun limit => holds.called_for limit m, ?_, ?_, holds.endless_iff⟩⟩
  · intro single calm
    have ends := holds.endsIn_of_honours calm (honours_zero single)
    rwa [Nat.zero_mul, Nat.zero_add] at ends
  · intro moves calm count asks
    refine ⟨_, ?_, holds.endsIn_of_honours calm (asks.honours moves)⟩
    have length := congrArg List.length (a.mode.program_eq a.operation.access width)
    rw [List.length_append, List.length_cons] at length
    have passes := Nat.mul_le_mul_left count (show
      (a.mode.prelude a.operation.access width).length + 1 ≤
        (a.mode.program a.operation.access width).length + 1 by omega)
    rw [Nat.succ_mul]
    omega

theorem performs_once_per_pass_moved :
    let a : Assignment := ⟨0x54, .blockMove, .mvn⟩
    let t := ([a].foldl Builder.accept {}).table
    let m : Machine Bench.Memory Bench.Player :=
      { state := {}
        bus := {}
        executor := { scripts := [[.complete .again], [.complete .again]] } }
    Table.build [a] = .ok t ∧ t.NeverFaults a.opcode .eight m ∧ t.AsksAgain a .eight m 2 ∧
      (∃ p, t.program a.opcode .eight = .ok p ∧
        t.PerformsOncePerPass a .eight m p.length) ∧
      (t.dispatch 21 a.opcode .eight m).1.isFinal = false ∧
      (t.dispatch 22 a.opcode .eight m).1 = .completed := by
  intro a t m
  have built : Table.build [a] = .ok t := build_of_ascending (List.pairwise_singleton _ _)
  have assigned := List.mem_singleton_self a
  obtain ⟨offset, holds⟩ := holds_of_build built assigned .eight
  have all : ∀ script ∈ m.executor.scripts, Bench.Script.completion script = .again := by
    simp [m, Bench.Script.completion]
  exact ⟨built, holds.neverFaults_of_storesDown rfl m, asksAgain_of_scripts t a .eight m all,
    performs_once_per_pass built assigned .eight m, by decide +kernel, by decide +kernel⟩

end Table

end

end Microcode
