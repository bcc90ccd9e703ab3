import Microcode.Proofs.Execution.Passes

namespace Microcode

variable {β ε : Type} [Bus β] {operation : Operation} {width : Width}

-- Calls that a bus answered, one after the other: each fetch is logged with the
-- byte that the bus then gave, and the calls made the bus what it is at the end.
-- Those of the executor do not reach it.
inductive Bus.Answers : β → List Event → β → Prop where
  | nil {b : β} : Answers b [] b
  | fetch {b last : β} {space : AddressSpace} {address : UInt32} {rest : List Event} :
      Answers (Bus.fetch b space address).2 rest last →
      Answers b (.fetch space address (Bus.fetch b space address).1 :: rest) last
  | store {b last : β} {space : AddressSpace} {address : UInt32} {byte : UInt8}
      {rest : List Event} :
      Answers (Bus.store b space address byte) rest last →
      Answers b (.store space address byte :: rest) last
  | perform {b last : β} {operation : Operation} {width : Width} {state : State}
      {rest : List Event} :
      Answers b rest last → Answers b (.perform operation width state :: rest) last

namespace Bus.Answers

variable {b middle last : β} {space : AddressSpace} {address : UInt32} {byte : UInt8}
  {front back rest : List Event}

theorem nil_iff : Answers b [] last ↔ last = b := by
  constructor
  · intro answered
    cases answered
    rfl
  · rintro rfl
    exact .nil

theorem fetch_iff : Answers b (.fetch space address byte :: rest) last ↔
    byte = (Bus.fetch b space address).1 ∧ Answers (Bus.fetch b space address).2 rest last := by
  constructor
  · intro answered
    cases answered with
    | fetch later => exact ⟨rfl, later⟩
  · rintro ⟨rfl, later⟩
    exact .fetch later

theorem store_iff : Answers b (.store space address byte :: rest) last ↔
    Answers (Bus.store b space address byte) rest last := by
  constructor
  · intro answered
    cases answered with
    | store later => exact later
  · exact .store

theorem append (first : Answers b front middle) (second : Answers middle back last) :
    Answers b (front ++ back) last := by
  induction first with
  | nil => exact second
  | fetch _ ih => exact .fetch (ih second)
  | store _ ih => exact .store (ih second)
  | perform _ ih => exact .perform (ih second)

end Bus.Answers

namespace Run

def Extends (first last : Run β ε) : Prop :=
  ∃ calls, last.events.toList = first.events.toList ++ calls ∧ Bus.Answers first.bus calls last.bus

theorem Extends.refl (r : Run β ε) : r.Extends r :=
  ⟨[], (List.append_nil _).symm, .nil⟩

theorem Extends.trans {first middle last : Run β ε} (one : first.Extends middle)
    (two : middle.Extends last) : first.Extends last := by
  obtain ⟨earlier, logged, answered⟩ := one
  obtain ⟨later, more, rest⟩ := two
  exact ⟨earlier ++ later, by rw [more, logged, List.append_assoc], answered.append rest⟩

end Run

variable [Executor ε]

-- What a step adds to the account: at most one call, with what became of the bus
-- or the executor that was called. Of the state it says nothing.
inductive Run.Adds (operation : Operation) (width : Width) (r : Run β ε) : Run β ε → Prop where
  | nothing (state : State) : Adds operation width r { r with state }
  | fetch (space : AddressSpace) (address : UInt32) (state : State) :
      Adds operation width r { r with
        state
        bus := (Bus.fetch r.bus space address).2
        cycles := r.cycles + 1
        events := r.events.push (.fetch space address (Bus.fetch r.bus space address).1) }
  | store (space : AddressSpace) (address : UInt32) (byte : UInt8) (state : State) :
      Adds operation width r { r with
        state
        bus := Bus.store r.bus space address byte
        cycles := r.cycles + 1
        events := r.events.push (.store space address byte) }
  | perform (state : State) : Adds operation width r { r.afterCall operation width with state }

namespace Run

theorem cycle_adds (operation : Operation) (width : Width) (c : BusCycle) (r : Run β ε) :
    r.Adds operation width (r.cycle c).2 := by
  unfold cycle
  split
  · dsimp only
    split
    · exact .fetch ..
    · exact .fetch ..
  · exact .store ..
  · exact .nothing _

theorem step_adds (operation : Operation) (width : Width) (u : MicroOp) (r : Run β ε) :
    r.Adds operation width (r.step operation width u).2 := by
  cases u with
  | cycle c =>
    rw [step]
    split
    · exact .nothing _
    · exact r.cycle_adds operation width c
  | construct c =>
    rw [step]
    split
    · exact .nothing _
    · exact .nothing _
  | copy c => exact .nothing _
  | perform =>
    by_cases repeated : r.repeats operation width
    · rw [step_perform_of_repeats repeated]
      exact .perform _
    · rw [step_perform_of_not_repeats repeated]
      exact .perform _
  | endOfProgram => exact .nothing _

theorem Adds.answers {r next : Run β ε} (adds : r.Adds operation width next) : r.Extends next := by
  cases adds with
  | nothing => exact .refl _
  | fetch => exact ⟨_, Array.toList_push, .fetch .nil⟩
  | store => exact ⟨_, Array.toList_push, .store .nil⟩
  | perform => exact ⟨_, Array.toList_push, .perform .nil⟩

end Run

theorem Leads.keeps {q : Program} {first last : Run β ε} (leads : Leads operation width q first last)
    (keeps : Run β ε → Prop)
    (kept : ∀ {r next}, r.Adds operation width next → keeps r → keeps next) (holds : keeps first) :
    keeps last := by
  induction leads with
  | nil => exact holds
  | @cons u rest r middle last stepped _ ih =>
    have adds := r.step_adds operation width u
    rw [stepped] at adds
    exact ih (kept adds holds)

theorem Leads.answers {q : Program} {first last : Run β ε}
    (leads : Leads operation width q first last) : first.Extends last :=
  leads.keeps first.Extends (fun adds before => before.trans adds.answers) (.refl first)

theorem Leads.events {q : Program} {first last : Run β ε}
    (leads : Leads operation width q first last) :
    ∃ more, last.events.toList = first.events.toList ++ more := by
  obtain ⟨calls, logged, -⟩ := leads.answers
  exact ⟨calls, logged⟩

namespace Table

theorem walk_keeps (t : Table) (instruction : Instruction) (width : Width) (limit : Nat)
    (keeps : Run β ε → Prop)
    (kept : ∀ {r next}, r.Adds instruction.operation width next → keeps r → keeps next)
    {position : Nat} {r : Run β ε} (holds : keeps r) :
    keeps (t.walk instruction width limit position r).2 := by
  induction limit generalizing position r with
  | zero => exact holds
  | succ limit ih =>
    rw [walk]
    split
    · exact holds
    · rename_i u _
      have after := kept (r.step_adds instruction.operation width u) holds
      cases stepped : r.step instruction.operation width u with
      | mk flow next =>
        rw [stepped] at after
        cases flow with
        | next | restart => exact ih after
        | finish | fault => exact after

theorem dispatch_keeps (t : Table) (limit : Nat) (opcode : UInt8) (width : Width)
    {m : Machine β ε} (keeps : Run β ε → Prop)
    (kept : ∀ {operation r next}, r.Adds operation width next → keeps r → keeps next)
    (first : ∀ state, keeps { m with state }) : keeps (t.dispatch limit opcode width m).2 := by
  unfold dispatch
  split
  · exact first m.state
  · rename_i instruction _
    exact t.walk_keeps instruction width limit keeps kept (first m.state.beginInstruction)

-- However a dispatch ends, its log is what the bus was asked, and its bus is what
-- these calls have made of the one it was given.
theorem dispatch_answers (t : Table) (limit : Nat) (opcode : UInt8) (width : Width)
    (m : Machine β ε) :
    Bus.Answers m.bus (t.dispatch limit opcode width m).2.events.toList
      (t.dispatch limit opcode width m).2.bus := by
  obtain ⟨calls, logged, answered⟩ := t.dispatch_keeps limit opcode width
    (Run.Extends { m with }) (fun adds before => before.trans adds.answers)
    fun state => ⟨[], rfl, .nil⟩
  rw [logged]
  exact answered

end Table

end Microcode
