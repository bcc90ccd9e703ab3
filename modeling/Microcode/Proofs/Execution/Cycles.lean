import Microcode.Proofs.Execution.Account
import Microcode.Proofs.Execution.Dispatches

namespace Microcode

def Event.busCalls (events : Array Event) : Nat :=
  events.toList.countP (·.isBusCall)

theorem Event.busCalls_push (events : Array Event) (e : Event) :
    busCalls (events.push e) = busCalls events + if e.isBusCall then 1 else 0 := by
  rw [busCalls, busCalls, Array.toList_push, List.countP_append, List.countP_singleton]

def Run.Balanced {β ε : Type} (r : Run β ε) : Prop :=
  r.cycles = Event.busCalls r.events

section

variable {β ε : Type} [Bus β]

theorem Run.cycle_counted (c : BusCycle) (r : Run β ε) (went : (r.cycle c).1 = .next) :
    (r.cycle c).2.cycles = r.cycles + 1 := by
  unfold cycle at went ⊢
  split at went
  · dsimp only at went ⊢
    split at went
    · rfl
    · cases went
  · rfl
  · cases went

end

section

variable {β ε : Type} [Bus β] [Executor ε]

theorem Run.Adds.balanced {operation : Operation} {width : Width} {r next : Run β ε}
    (adds : r.Adds operation width next) (balanced : r.Balanced) : next.Balanced := by
  cases adds with
  | nothing => exact balanced
  | fetch | store =>
    rw [Balanced, Event.busCalls_push, balanced]
    rfl
  | perform =>
    rw [Balanced, afterCall, Event.busCalls_push]
    exact balanced

-- However a dispatch ends and however many passes it makes, its cycles are the
-- calls of the bus that it made.
theorem Table.dispatch_balanced (t : Table) (limit : Nat) (opcode : UInt8) (width : Width)
    (m : Machine β ε) : (t.dispatch limit opcode width m).2.Balanced :=
  t.dispatch_keeps limit opcode width Run.Balanced Run.Adds.balanced fun _ => rfl

theorem Leads.cycles_eq {operation : Operation} {width : Width} {q : Program} {r next : Run β ε}
    (leads : Leads operation width q r next) (quiet : ∀ u ∈ q, u.isConstruction = false)
    (clear : r.state.skipNext = false) : next.cycles = r.cycles + q.busCycles := by
  induction leads with
  | nil => rfl
  | @cons u rest r middle next stepped _ ih =>
    have later := ih fun v member => quiet v (List.mem_cons_of_mem u member)
    cases u with
    | cycle c =>
      rw [Run.step, clear] at stepped
      have kept := r.cycle_skipNext c
      have counted := r.cycle_counted c
      simp only [Bool.false_eq_true, if_false] at stepped
      rw [stepped] at kept counted
      rw [later (kept.trans clear), counted rfl, Program.busCycles, Program.busCycles,
        List.countP_cons_of_pos rfl, Nat.add_assoc, Nat.add_comm 1]
    | construct c => cases quiet (.construct c) (List.mem_cons_self ..)
    | copy c =>
      cases stepped
      exact later clear
    | perform =>
      obtain ⟨-, rfl⟩ := Run.of_performed stepped
      exact later clear
    | endOfProgram => cases stepped

end

end Microcode
