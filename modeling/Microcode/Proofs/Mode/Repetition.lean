import Microcode.Proofs.Execution.Series
import Microcode.Proofs.Mode.CycleCount

namespace Microcode

def Event.performs (events : Array Event) : Nat :=
  events.countP (!·.isBusCall)

theorem Event.performs_push (events : Array Event) (e : Event) :
    performs (events.push e) = performs events + if e.isBusCall then 0 else 1 := by
  rw [performs, performs, Array.countP_push]
  cases e.isBusCall <;> rfl

section

variable {β ε : Type}

def Run.answer [Executor ε] (r : Run β ε) (operation : Operation) (width : Width) : Completion :=
  (Executor.perform r.executor operation width r.state).completion

theorem Run.performs_followedBy (earlier later : Run β ε) :
    Event.performs (earlier.followedBy later).events =
      Event.performs earlier.events + Event.performs later.events :=
  Array.countP_append

theorem Run.performs_afterCall [Executor ε] (operation : Operation) (width : Width)
    (r : Run β ε) :
    Event.performs (r.afterCall operation width).events = Event.performs r.events + 1 :=
  Event.performs_push ..

variable [Bus β] [Executor ε]

def Table.AsksAgain (t : Table) (a : Assignment) (width : Width) (m : Machine β ε)
    (count : Nat) : Prop :=
  ∀ steps called, t.Calls a.opcode width m steps called →
    (Event.performs called.events < count → called.answer a.operation width = .again) ∧
      (Event.performs called.events = count → called.answer a.operation width = .done)

theorem AddressingMode.program_of_performs_last {mode : AddressingMode} {access : Access}
    {width : Width} (last : (mode.program access width).getLast? = some .perform) :
    mode.program access width = mode.prelude access width ++ [.perform] := by
  have split := mode.program_eq access width
  have settles := mode.finale_settles access width
  rw [split] at last ⊢
  cases ends : (mode.finale access width).getLast? with
  | none => rw [List.getLast?_eq_none_iff.mp ends]
  | some u =>
    have settled := settles u (List.mem_of_getLast? ends)
    rw [List.getLast?_append, List.getLast?_cons, ends] at last
    cases last
    cases settled

theorem Machine.reaches_call (m : Machine β ε) (a : Assignment) (width : Width) :
    ∃ called, Leads a.operation width (a.mode.prelude a.operation.access width) m.begin called ∧
      Event.performs called.events = 0 := by
  obtain ⟨called, calls, leads, -, events, -, bus, -⟩ :=
    (Yields.counts a.mode a.operation.access).run m.begin m.state.beginInstruction_fresh
  refine ⟨called, leads, ?_⟩
  rw [Event.performs, ← Array.countP_toList, events, List.countP_eq_zero]
  simpa [begin] using bus

namespace Table

variable {t : Table} {a : Assignment} {width : Width} {offset : Nat} {m : Machine β ε}
  {called : Run β ε} {behind ahead : Program} {count : Nat}

namespace Holds

theorem asksAgain_of_repeats (holds : t.Holds a width offset)
    (split : a.mode.program a.operation.access width = behind ++ .perform :: ahead)
    (leads : Leads a.operation width behind m.begin called)
    (repeated : called.repeats a.operation width) (none : Event.performs called.events = 0)
    (asks : t.AsksAgain a width m (count + 1)) :
    t.AsksAgain a width (called.afterCall a.operation width).toMachine count := by
  rintro steps later ⟨position, reached, performs⟩
  have onward := holds.dispatch_of_repeats split leads repeated steps
  dsimp only at onward
  rw [reached] at onward
  obtain ⟨again, done⟩ := asks _ _ ⟨position, onward, performs⟩
  have one := called.performs_afterCall a.operation width
  rw [none] at one
  rw [Run.performs_followedBy, one, Nat.add_comm 1] at again done
  exact ⟨fun less => again (Nat.succ_lt_succ less), fun same => done (congrArg Nat.succ same)⟩

end Holds

-- The passes of one dispatch are dispatches of their own: each is made on what the
-- one before it left, and together they make the same calls.
theorem dispatch_eq_series {assignments : List Assignment} (built : Table.build assignments = .ok t)
    (assigned : a ∈ assignments) (moves : a.operation.isBlockMove)
    (last : (a.mode.program a.operation.access width).getLast? = some .perform) (count : Nat)
    (asks : t.AsksAgain a width m count) :
    ∃ r, (∀ limit, (count + 1) * (a.mode.program a.operation.access width).length < limit →
        t.dispatch limit a.opcode width m = (.completed, r)) ∧
      ∀ limit, (a.mode.program a.operation.access width).length < limit →
        t.series limit a.opcode width (count + 1) m.once = some r.once := by
  obtain ⟨offset, holds⟩ := holds_of_build built assigned width
  have split := AddressingMode.program_of_performs_last last
  induction count generalizing m with
  | zero =>
    obtain ⟨called, leads, none⟩ := m.reaches_call a width
    have begins := holds.passBegins_first m
    have done := (asks _ _ (holds.calls begins split leads)).2 none
    have single : ¬ called.repeats a.operation width := fun repeated => by
      cases done.symm.trans repeated.1
    refine ⟨called.afterCall a.operation width, fun limit enough => ?_, fun limit enough => ?_⟩
    · exact holds.completes_after_call begins split leads single .nil (by omega)
    · rw [holds.series_once split leads enough]
      exact congrArg some (Run.followedBy_nothing _)
  | succ count ih =>
    obtain ⟨called, leads, none⟩ := m.reaches_call a width
    have again := (asks _ _ (holds.calls (holds.passBegins_first m) split leads)).1 (by omega)
    have repeated : called.repeats a.operation width := ⟨again, moves⟩
    obtain ⟨r, whole, parts⟩ := ih (holds.asksAgain_of_repeats split leads repeated none asks)
    refine ⟨(called.afterCall a.operation width).followedBy r, fun limit enough => ?_,
      fun limit enough => ?_⟩
    · have length := congrArg List.length split
      rw [List.length_append, List.length_singleton] at length
      rw [Nat.succ_mul] at enough
      have first : (a.mode.prelude a.operation.access width).length + 1 ≤ limit := by omega
      obtain ⟨more, rfl⟩ := Nat.exists_eq_add_of_le' first
      rw [holds.dispatch_of_repeats split leads repeated more]
      dsimp only
      rw [whole more (by omega)]
    · rw [holds.series_once split leads enough, parts limit enough]
      rfl

end Table

end

namespace Bench

def Script.completion (script : Script) : Completion :=
  script.foldl (fun before cue =>
    match cue with
    | .act _ => before
    | .complete completion => completion) .done

theorem Performance.completion_foldl (script : Script) (s : State) :
    (script.foldl Performance.follow { state := s }).completion = Script.completion script :=
  (List.foldl_hom Performance.completion fun _ cue => by cases cue <;> rfl).symm

end Bench

section

open Bench (Player Script)

variable {β : Type} [Bus β] {scripts : List Script}

def Run.Plays (scripts : List Script) (r : Run β Player) : Prop :=
  r.executor.scripts = scripts.drop (Event.performs r.events)

theorem Run.Adds.plays {operation : Operation} {width : Width} {r next : Run β Player}
    (adds : r.Adds operation width next) (plays : r.Plays scripts) : next.Plays scripts := by
  cases adds with
  | nothing => exact plays
  | fetch | store =>
    rw [Plays, Event.performs_push]
    exact plays
  | perform =>
    rw [Plays, afterCall, Event.performs_push]
    change r.executor.scripts.tail = scripts.drop (Event.performs r.events + 1)
    rw [plays, List.tail_drop]

theorem Table.asksAgain_of_scripts (t : Table) (a : Assignment) (width : Width)
    (m : Machine β Player) (all : ∀ script ∈ m.executor.scripts, Script.completion script = .again) :
    t.AsksAgain a width m m.executor.scripts.length := by
  rintro steps called ⟨position, reached, -⟩
  have plays := t.dispatch_keeps steps a.opcode width (Run.Plays m.executor.scripts)
    Run.Adds.plays fun state => rfl
  rw [reached] at plays
  have answer : called.answer a.operation width =
      Script.completion ((m.executor.scripts[Event.performs called.events]?).getD []) := by
    rw [← List.head?_drop, ← plays, ← List.headD_eq_head?_getD]
    exact Bench.Performance.completion_foldl _ _
  rw [answer]
  constructor
  · intro less
    rw [List.getElem?_eq_getElem less]
    exact all _ (List.getElem_mem less)
  · intro same
    rw [same, List.getElem?_length]
    rfl

theorem Table.dispatch_eq_series_scripted :
    let a : Assignment := ⟨0x54, .blockMove, .mvn⟩
    let m : Machine Bench.Memory Player :=
      { state := .ofRegisters { x := 0xFFFF, y := 0x8000, pc := 0xFFFE }
        bus := {}
        executor := { scripts := [
          [.act (.set [.pc 0x0100, .dataAddress 0xFFFFFFFF]), .complete .again],
          [.complete .again, .act (.dataBuffer (.set 0xFFFFFFFF 0xFF))]] } }
    a ∈ opcodeMap ∧ a.operation.isBlockMove ∧
      (a.mode.program a.operation.access .eight).getLast? = some .perform ∧
      standardTable.AsksAgain a .eight m 2 ∧
      ∃ r, (∀ limit, 3 * (a.mode.program a.operation.access .eight).length < limit →
          standardTable.dispatch limit a.opcode .eight m = (.completed, r)) ∧
        ∀ limit, (a.mode.program a.operation.access .eight).length < limit →
          standardTable.series limit a.opcode .eight 3 m.once = some r.once := by
  intro a m
  have assigned : a ∈ opcodeMap := by decide
  have all : ∀ script ∈ m.executor.scripts, Script.completion script = .again := by
    simp [m, Script.completion]
  have asks : standardTable.AsksAgain a .eight m 2 := asksAgain_of_scripts _ a .eight m all
  exact ⟨assigned, rfl, rfl, asks, dispatch_eq_series build_opcodeMap assigned rfl rfl 2 asks⟩

end

end Microcode
