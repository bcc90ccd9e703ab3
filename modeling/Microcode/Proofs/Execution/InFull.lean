import Microcode.Bench.Reference
import Microcode.Proofs.Execution.Elision
import Microcode.Proofs.Execution.Series

namespace Microcode

def PlainReads (β : Type) [Bus β] : Prop :=
  ∀ (bus : β) (space : AddressSpace) (address : UInt32), (Bus.fetch bus space address).2 = bus

namespace Event

def isFetch : Event → Bool
  | .fetch _ _ _ => true
  | _ => false

-- Calls made in one order by two runs, where one made a number of extra calls
-- in between.
inductive Padded (extra : Event → Prop) : Nat → List Event → List Event → Prop where
  | nothing : Padded extra 0 [] []
  | both {count : Nat} {few many : List Event} (e : Event) :
      Padded extra count few many → Padded extra count (few ++ [e]) (many ++ [e])
  | extra {count : Nat} {few many : List Event} {e : Event} :
      extra e → Padded extra count few many → Padded extra (count + 1) few (many ++ [e])

namespace Padded

variable {extra : Event → Prop} {count : Nat} {few many : List Event}

theorem append (padded : Padded extra count few many) (more : List Event) :
    Padded extra count (few ++ more) (many ++ more) := by
  induction more generalizing few many with
  | nil => simpa using padded
  | cons e rest ih => simpa using ih (padded.both e)

theorem filter_eq (padded : Padded extra count few many) (fetches : ∀ e, extra e → e.isFetch = true) :
    many.filter (!·.isFetch) = few.filter (!·.isFetch) := by
  induction padded with
  | nothing => rfl
  | both e _ ih => rw [List.filter_append, List.filter_append, ih]
  | extra found _ ih => simp [ih, fetches _ found]

end Padded

end Event

namespace BusCycle

theorem isIdle_of_isElidable {c : BusCycle} (elidable : c.isElidable = true) : c.isIdle = true := by
  cases c <;> first | rfl | cases elidable

theorem transfer_of_isIdle {c : BusCycle} (idle : c.isIdle = true) (d : Datapath) :
    ∃ address, c.transfer d = .fetch address fun _ => .ok d := by
  cases c with
  | idleProgram | idleData | idleUncorrected | idleStack | idleDestination => exact ⟨_, rfl⟩
  | _ => cases idle

end BusCycle

namespace Run

variable {β ε : Type} [Bus β] [Executor ε] {operation : Operation} {width : Width}

-- A step for which the marker has no meaning: a bus cycle clears it and is
-- performed all the same.
def stepInFull (operation : Operation) (width : Width) (u : MicroOp) (r : Run β ε) :
    Flow × Run β ε :=
  match u with
  | .cycle c => cycle c { r with state.skipNext := false }
  | u => r.step operation width u

theorem stepInFull_of_clear {r : Run β ε} (clear : r.state.skipNext = false) (u : MicroOp) :
    r.stepInFull operation width u = r.step operation width u := by
  cases u with
  | cycle c =>
    rw [stepInFull, step, clear, if_neg Bool.false_ne_true, ← clear]
  | _ => rfl

theorem stepInFull_of_idle (plain : PlainReads β) {r : Run β ε} {c : BusCycle} {address : UInt32}
    (asks : c.transfer r.state.toDatapath = .fetch address fun _ => .ok r.state.toDatapath) :
    r.stepInFull operation width (.cycle c) =
      (.next, { r with
        state.skipNext := false
        cycles := r.cycles + 1
        events := r.events.push (.fetch c.space address (Bus.fetch r.bus c.space address).1) }) := by
  have kept := plain r.bus c.space address
  simp only [stepInFull, cycle, asks, withDatapath, State.withDatapath, kept]

theorem step_of_toMachine_eq (operation : Operation) (width : Width) {few many : Run β ε}
    (same : many.toMachine = few.toMachine) (u : MicroOp) :
    ∃ flow next, few.step operation width u = (flow, few.followedBy next) ∧
      many.step operation width u = (flow, many.followedBy next) := by
  have one := @step_followedBy β ε _ _ operation width few { few.toMachine with } u
  have two := @step_followedBy β ε _ _ operation width many { few.toMachine with } u
  rw [few.followedBy_nothing] at one
  rw [← same, many.followedBy_nothing, same] at two
  exact ⟨_, _, one, two⟩

end Run

structure DiffersInTiming {β ε : Type} (extra : Event → Prop) (few many : Verdict × Run β ε) : Prop where
  verdict : many.1 = few.1
  machine : many.2.toMachine = few.2.toMachine
  account : ∃ count, Event.Padded extra count few.2.events.toList many.2.events.toList ∧
    many.2.cycles = few.2.cycles + count

theorem DiffersInTiming.refl {β ε : Type} {extra : Event → Prop} {ended : Verdict × Run β ε}
    (none : ended.2.events = #[]) : DiffersInTiming extra ended ended where
  verdict := rfl
  machine := rfl
  account := ⟨0, none ▸ .nothing, rfl⟩

namespace Table

variable {β ε : Type} [Bus β] [Executor ε]

def dispatchInFull (t : Table) (limit : Nat) (opcode : UInt8) (width : Width) (m : Machine β ε) :
    Verdict × Run β ε :=
  match t.instruction? opcode width with
  | none => (.illegal ⟨opcode, width⟩, { m with })
  | some instruction =>
    t.walkBy (Run.stepInFull instruction.operation width) instruction.offset limit
      instruction.offset m.begin

def LeavesOut (t : Table) (opcode : UInt8) (width : Width) (m : Machine β ε) (e : Event) : Prop :=
  ∃ steps position c r address, t.Meets opcode width m steps position (.cycle c) r ∧
    r.state.skipNext = true ∧ c.isIdle = true ∧
    c.transfer r.state.toDatapath = .fetch address (fun _ => .ok r.state.toDatapath) ∧
    e = .fetch c.space address (Bus.fetch r.bus c.space address).1

theorem LeavesOut.isFetch {t : Table} {opcode : UInt8} {width : Width} {m : Machine β ε} {e : Event}
    (leaves : t.LeavesOut opcode width m e) : e.isFetch = true := by
  obtain ⟨-, -, -, -, -, -, -, -, -, rfl⟩ := leaves
  rfl

namespace Holds

variable {t : Table} {a : Assignment} {width : Width} {offset : Nat} {m : Machine β ε}
  {steps position : Nat} {few many : Run β ε} {u : MicroOp}

theorem dispatchInFull_eq (holds : t.Holds a width offset) (limit : Nat) (m : Machine β ε) :
    t.dispatchInFull limit a.opcode width m =
      t.walkBy (Run.stepInFull a.operation width) offset limit offset m.begin := by
  rw [dispatchInFull, holds.found]

theorem step_differsInTiming (holds : t.Holds a width offset) (plain : PlainReads β)
    (meets : t.Meets a.opcode width m steps position u few)
    (agree : DiffersInTiming (t.LeavesOut a.opcode width m)
      (.unfinished position, few) (.unfinished position, many)) :
    DiffersInTiming (t.LeavesOut a.opcode width m)
      ((few.step a.operation width u).1.verdict offset position, (few.step a.operation width u).2)
      ((many.stepInFull a.operation width u).1.verdict offset position,
        (many.stepInFull a.operation width u).2) := by
  obtain ⟨-, same, count, padded, cycles⟩ := agree
  dsimp only at same padded cycles
  have state : many.state = few.state := congrArg Machine.state same
  have bus : many.bus = few.bus := congrArg Machine.bus same
  cases set_ : few.state.skipNext with
  | false =>
    rw [many.stepInFull_of_clear (state ▸ set_)]
    obtain ⟨flow, next, one, two⟩ := Run.step_of_toMachine_eq a.operation width same u
    rw [one, two]
    refine ⟨rfl, rfl, count, ?_, ?_⟩
    · simpa [Run.followedBy] using padded.append next.events.toList
    · simp only [Run.followedBy, cycles]
      omega
  | true =>
    -- The one run spends its marker here, and the other makes an idle read.
    obtain ⟨c, there, elidable⟩ := holds.meets_elidable meets.stands set_
    have read := there.read
    rw [meets.read] at read
    cases read
    have idle := BusCycle.isIdle_of_isElidable elidable
    obtain ⟨address, asks⟩ := BusCycle.transfer_of_isIdle idle few.state.toDatapath
    have skipped : few.step a.operation width (.cycle c) =
        (.next, { few with state.skipNext := false }) := by
      rw [Run.step, if_pos set_]
    rw [skipped, Run.stepInFull_of_idle plain (state ▸ asks)]
    refine ⟨rfl, ?_, count + 1, ?_, ?_⟩
    · simp [same]
    · rw [Array.toList_push]
      refine padded.extra ⟨steps, position, c, few, address, there, set_, idle, asks, ?_⟩
      rw [bus]
    · simp only [cycles]
      omega

theorem dispatch_differsInTiming (holds : t.Holds a width offset) (plain : PlainReads β)
    (m : Machine β ε) (limit : Nat) :
    DiffersInTiming (t.LeavesOut a.opcode width m) (t.dispatch limit a.opcode width m)
      (t.dispatchInFull limit a.opcode width m) := by
  induction limit with
  | zero =>
    rw [holds.dispatch_eq, holds.dispatchInFull_eq]
    exact .refl rfl
  | succ limit ih =>
    rw [holds.dispatchInFull_eq] at ih ⊢
    rw [walkBy_succ]
    cases ended : t.dispatch limit a.opcode width m with
    | mk verdict few =>
      rw [ended] at ih
      cases full : t.walkBy (Run.stepInFull a.operation width) offset limit offset m.begin with
      | mk other many =>
        rw [full] at ih
        have alike := ih.verdict
        dsimp only at alike
        subst alike
        cases other with
        | unfinished position =>
          obtain ⟨u, meets⟩ := holds.meets_next ended
          dsimp only
          rw [holds.dispatch_of_meets meets, walkBy_one t meets.read]
          exact holds.step_differsInTiming plain meets ih
        | completed | illegal | faulted =>
          rw [holds.dispatch_succ, ended]
          exact ih

end Holds

-- The marker is about timing only. With it and without it a dispatch makes the
-- same stores and the same calls of the executor, ends alike on the same machine,
-- and differs in the reads that it leaves out.
theorem dispatch_in_full {assignments : List Assignment} {t : Table}
    (built : Table.build assignments = .ok t) (plain : PlainReads β) (opcode : UInt8)
    (width : Width) (m : Machine β ε) (limit : Nat) :
    let few := t.dispatch limit opcode width m
    let many := t.dispatchInFull limit opcode width m
    DiffersInTiming (t.LeavesOut opcode width m) few many ∧
      many.2.events.toList.filter (!·.isFetch) = few.2.events.toList.filter (!·.isFetch) := by
  intro few many
  have timing : DiffersInTiming (t.LeavesOut opcode width m) few many := by
    by_cases free : ∀ a ∈ assignments, a.opcode ≠ opcode
    · have refused := dispatch_of_free built free width limit m
      have missing := ((realizes_of_build built).unassigned opcode free width).1
      have alike : many = few := by
        rw [show few = _ from refused]
        simp only [many, dispatchInFull, missing]
      rw [alike]
      exact .refl (by rw [show few = _ from refused])
    · obtain ⟨a, assigned, rfl⟩ : ∃ a ∈ assignments, a.opcode = opcode := by simpa using free
      obtain ⟨offset, holds⟩ := holds_of_build built assigned width
      exact holds.dispatch_differsInTiming plain m limit
  obtain ⟨count, padded, -⟩ := timing.account
  exact ⟨timing, padded.filter_eq fun e leaves => leaves.isFetch⟩

theorem dispatch_in_full_both :
    let loads : List Assignment := [⟨0xB1, .directIndirectIndexed, .lda⟩]
    let t := (loads.foldl Builder.accept {}).table
    let m : Machine FlatMemory Bench.Reference :=
      { state := .ofRegisters {}, bus := ⟨fun address => address.toUInt8⟩, executor := {} }
    let few := t.dispatch 20 0xB1 .sixteen m
    let many := t.dispatchInFull 20 0xB1 .sixteen m
    Table.build loads = .ok t ∧ PlainReads FlatMemory ∧
      DiffersInTiming (t.LeavesOut 0xB1 .sixteen m) few many ∧
      many.2.events.toList.filter (!·.isFetch) = few.2.events.toList.filter (!·.isFetch) ∧
      few.2.cycles = 5 ∧ many.2.cycles = 7 := by
  intro loads t m few many
  have built : Table.build loads = .ok t := build_of_ascending (List.pairwise_singleton _ _)
  have plain : PlainReads FlatMemory := fun _ _ _ => rfl
  obtain ⟨timing, calls⟩ := dispatch_in_full built plain 0xB1 .sixteen m 20
  exact ⟨built, plain, timing, calls, by decide +kernel, by decide +kernel⟩

end Table

end Microcode
