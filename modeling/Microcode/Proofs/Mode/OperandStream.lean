import Microcode.Proofs.Execution.Frame
import Microcode.Proofs.Mode.Overfilling
import Microcode.Proofs.Mode.Targets

namespace Microcode

theorem MicroOp.fetchesOperand_of_settles {u : MicroOp} (settles : u.settles) :
    u.fetchesOperand = false := by
  cases u with
  | cycle c => cases c <;> first | rfl | cases settles
  | _ => rfl

namespace AddressingMode

theorem operandLength_le (mode : AddressingMode) : mode.operandLength ≤ 3 := by
  cases mode <;> decide

theorem countP_prelude (mode : AddressingMode) (access : Access) (width : Width) :
    (mode.prelude access width).countP MicroOp.fetchesOperand = mode.operandLength := by
  cases mode <;> cases access <;> cases width <;> rfl

def operandAdvance (mode : AddressingMode) : Nat :=
  if mode.isControl then mode.operandLength - 1 else mode.operandLength

theorem count_prelude (mode : AddressingMode) (access : Access) (width : Width) :
    (mode.prelude access width).count (.cycle .fetchOperand) = mode.operandAdvance := by
  cases mode <;> cases access <;> cases width <;> rfl

theorem pairwise_prelude (mode : AddressingMode) (access : Access) (width : Width) :
    (mode.prelude access width).Pairwise fun u v =>
      u = .cycle .fetchLastOperand → v.fetchesOperand = false := by
  cases mode <;> cases access <;> cases width <;> decide

theorem count_of_split {mode : AddressingMode} {access : Access} {width : Width} {u : MicroOp}
    {behind ahead : Program} (split : mode.prelude access width = behind ++ u :: ahead)
    (operand : u.fetchesOperand = true) :
    behind.count (.cycle .fetchOperand) = behind.countP MicroOp.fetchesOperand := by
  have apart := mode.pairwise_prelude access width
  rw [split, List.pairwise_append] at apart
  refine List.countP_congr fun v member => ?_
  have others := apart.2.2 v member u (List.mem_cons_self ..)
  rw [operand] at others
  cases v with
  | cycle c => cases c <;> simp_all [MicroOp.fetchesOperand, BusCycle.fetchesOperand]
  | _ => simp [MicroOp.fetchesOperand]

end AddressingMode

structure Run.HasStreamed {β ε : Type} (r : Run β ε) (R : Registers) (behind : Program)
    (operand : List UInt8) : Prop where
  length : operand.length = behind.countP MicroOp.fetchesOperand
  held : r.state.instructionBuffer = .ofBytes operand
  pc : r.state.registers.pc = R.pc + .ofNat (behind.count (.cycle .fetchOperand))
  programBank : r.state.registers.programBank = R.programBank

section

variable {β ε : Type} [Bus β] [Executor ε] {operation : Operation} {width : Width}
  {r next : Run β ε} {R : Registers} {behind : Program} {operand : List UInt8} {u : MicroOp}

theorem Run.HasStreamed.programCounter (read : r.HasStreamed R behind operand) (own : u ≠ .perform)
    (timely : r.state.skipNext = true → ∃ c, u = .cycle c ∧ c.isElidable = true)
    (stepped : r.step operation width u = (.next, next)) :
    next.state.registers.pc = R.pc + .ofNat ((behind ++ [u]).count (.cycle .fetchOperand)) ∧
      next.state.registers.programBank = R.programBank := by
  rw [Run.step_registers own timely stepped, MicroOp.pc_moveRegisters,
    MicroOp.programBank_moveRegisters, read.pc, List.count_append, List.count_singleton,
    UInt16.ofNat_add, UInt16.add_assoc]
  refine ⟨?_, read.programBank⟩
  by_cases same : u = .cycle .fetchOperand <;> simp [same]

theorem Run.HasStreamed.step_other (read : r.HasStreamed R behind operand) (own : u ≠ .perform)
    (other : u.fetchesOperand = false)
    (timely : r.state.skipNext = true → ∃ c, u = .cycle c ∧ c.isElidable = true)
    (stepped : r.step operation width u = (.next, next)) :
    next.HasStreamed R (behind ++ [u]) operand := by
  obtain ⟨pc, programBank⟩ := read.programCounter own timely stepped
  refine ⟨?_, ?_, pc, programBank⟩
  · rw [List.countP_append, List.countP_singleton, other]
    exact read.length
  · exact (Run.step_instructionBuffer own other stepped).trans read.held

theorem Run.HasStreamed.step_operand (read : r.HasStreamed R behind operand)
    (fetches : u.fetchesOperand = true)
    (timely : r.state.skipNext = true → ∃ c, u = .cycle c ∧ c.isElidable = true)
    (stepped : r.step operation width u = (.next, next)) (few : operand.length < 4)
    (counted : behind.count (.cycle .fetchOperand) = behind.countP MicroOp.fetchesOperand) :
    ∃ byte, next.HasStreamed R (behind ++ [u]) (operand ++ [byte]) ∧
      next.events =
        r.events.push (.fetch .program (R.advance operand.length).programAddress byte) := by
  cases u with
  | cycle c =>
    obtain ⟨pc, programBank⟩ := read.programCounter (by simp) timely stepped
    have clear : ¬ r.state.skipNext = true := by
      intro set_
      obtain ⟨k, same, elidable⟩ := timely set_
      cases same
      exact Bool.false_ne_true ((BusCycle.isElidable_of_fetchesOperand fetches).symm.trans elidable)
    rw [step, if_neg clear] at stepped
    obtain ⟨byte, pushed, events⟩ := Run.cycle_of_fetchesOperand fetches stepped
    rw [read.held, Buffer.push_ofBytes few] at pushed
    refine ⟨byte, ⟨?_, (Except.ok.inj pushed).symm, pc, programBank⟩, ?_⟩
    · rw [List.length_append, List.length_singleton, List.countP_append, List.countP_singleton,
        if_pos fetches, read.length]
    · rw [events, Registers.programAddress, read.pc, read.programBank, counted, ← read.length]
      rfl
  | _ => cases fetches

end

namespace Table

section

variable {β ε : Type} [Bus β] [Executor ε]

def madeBy (t : Table) (kind : MicroOp → Bool) (opcode : UInt8) (width : Width) (m : Machine β ε)
    (steps : Nat) : List Event :=
  match t.dispatch steps opcode width m with
  | (.unfinished position, r) =>
    if (t.store[position]?).any kind then
      (t.dispatch (steps + 1) opcode width m).2.events.toList.drop r.events.size
    else []
  | _ => []

def callsBy (t : Table) (kind : MicroOp → Bool) (opcode : UInt8) (width : Width) (m : Machine β ε)
    (first count : Nat) : List Event :=
  (List.range count).flatMap fun i => t.madeBy kind opcode width m (first + i)

def ReadsIdly (t : Table) (opcode : UInt8) (width : Width) (m : Machine β ε) (steps position : Nat)
    (r : Run β ε) : Prop :=
  ∃ next, t.dispatch (steps + 1) opcode width m = (.unfinished (position + 1), next) ∧
    next.state = { r.state with skipNext := false } ∧
    (r.state.skipNext = true ∧ next.events = r.events ∨
      r.state.skipNext = false ∧ ∃ byte, next.events =
        r.events.push (.fetch .program r.state.registers.programAddress byte))

variable {t : Table} {a : Assignment} {width : Width} {m : Machine β ε}
  {kind : MicroOp → Bool} {offset steps position first : Nat} {u : MicroOp} {r start : Run β ε}
  {behind ahead : Program}

theorem callsBy_succ (t : Table) (kind : MicroOp → Bool) (opcode : UInt8) (width : Width)
    (m : Machine β ε) (first count : Nat) :
    t.callsBy kind opcode width m first (count + 1) =
      t.callsBy kind opcode width m first count ++
        t.madeBy kind opcode width m (first + count) := by
  simp [callsBy, List.range_succ]

theorem madeBy_of_kind {opcode : UInt8} (meets : t.Meets opcode width m steps position u r)
    (own : kind u = true) :
    t.madeBy kind opcode width m steps =
      (t.dispatch (steps + 1) opcode width m).2.events.toList.drop r.events.size := by
  simp [madeBy, meets.stands, meets.read, own]

theorem madeBy_of_other {opcode : UInt8} (meets : t.Meets opcode width m steps position u r)
    (other : kind u = false) : t.madeBy kind opcode width m steps = [] := by
  simp [madeBy, meets.stands, meets.read, other]

namespace Holds

-- By the micro-ops that a pass has behind it. Each operand cycle among them added
-- its byte to the buffer and its fetch to the calls, and no other one did.
theorem hasStreamed_of_leads (holds : t.Holds a width offset)
    (begins : t.PassBegins a.opcode width m first start)
    (split : a.mode.prelude a.operation.access width = behind ++ ahead)
    (leads : Leads a.operation width behind start r) :
    ∃ operand, r.HasStreamed start.state.registers behind operand ∧
      t.callsBy MicroOp.fetchesOperand a.opcode width m first behind.length =
        start.state.registers.operandCalls operand := by
  induction behind using List.reverseRecOn generalizing ahead r with
  | nil =>
    cases leads
    have fresh := holds.fresh_of_passBegins begins
    refine ⟨[], ⟨rfl, ?_, ?_, rfl⟩, rfl⟩
    · rw [fresh]
    · exact (UInt16.add_zero _).symm
  | append_singleton front u ih =>
    obtain ⟨middle, earlier, last⟩ := leads.split
    rw [List.append_assoc, List.singleton_append] at split
    obtain ⟨operand, read, made⟩ := ih split earlier
    have whole := a.mode.program_eq a.operation.access width
    rw [split, List.append_assoc, List.cons_append] at whole
    have meets : t.Meets a.opcode width m (first + front.length) (offset + front.length) u middle :=
      ⟨holds.reach begins whole earlier, holds.placed.read whole⟩
    have own : u ≠ .perform := by
      rintro rfl
      exact a.mode.perform_not_mem_prelude a.operation.access width (by simp [split])
    cases last with
    | cons stepped rest =>
      cases rest
      rw [List.length_append, List.length_singleton, callsBy_succ, made]
      cases fetches : u.fetchesOperand with
      | false =>
        rw [madeBy_of_other meets fetches, List.append_nil]
        exact ⟨operand, read.step_other own fetches (holds.cycle_of_marked meets) stepped, rfl⟩
      | true =>
        -- No operand is as long as the buffer, so there is room for one byte more.
        have few : operand.length < 4 := by
          have all := a.mode.countP_prelude a.operation.access width
          have most := a.mode.operandLength_le
          rw [split, List.countP_append, ← read.length] at all
          omega
        obtain ⟨byte, onward, events⟩ := read.step_operand fetches (holds.cycle_of_marked meets)
          stepped few (AddressingMode.count_of_split split fetches)
        refine ⟨operand ++ [byte], onward, ?_⟩
        rw [madeBy_of_kind meets fetches, holds.dispatch_of_meets meets, stepped,
          Registers.operandCalls_concat]
        dsimp only
        rw [events, Array.toList_push, List.drop_left' Array.length_toList]

theorem madeBy_eq_nil (holds : t.Holds a width offset)
    (other : ∀ position u r, t.Meets a.opcode width m steps position u r → kind u = false) :
    t.madeBy kind a.opcode width m steps = [] := by
  cases stood : t.dispatch steps a.opcode width m with
  | mk verdict r =>
    cases verdict with
    | unfinished position =>
      obtain ⟨u, meets⟩ := holds.meets_next stood
      exact madeBy_of_other meets (other position u r meets)
    | completed | illegal | faulted => simp [madeBy, stood]

theorem madeBy_behind_call (holds : t.Holds a width offset)
    (begins : t.PassBegins a.opcode width m first start) {later : Nat}
    (behind_call : first + (a.mode.prelude a.operation.access width).length ≤ later)
    (inside : t.InPass a.opcode width m first later) :
    t.madeBy MicroOp.fetchesOperand a.opcode width m later = [] := by
  obtain ⟨i, rfl⟩ := Nat.exists_eq_add_of_le inside.1
  refine holds.madeBy_eq_nil fun position u r meets => ?_
  by_cases program : u = .endOfProgram
  · rw [program]
    rfl
  · have place := holds.position_of_inPass begins inside meets.stands
    obtain ⟨-, -, behind, ahead, -, split, -, -, found⟩ := holds.pass_of_meets meets program
    rcases AddressingMode.split_cases split with ⟨rest, earlier⟩ | ⟨rfl, -⟩ | ⟨front, -, finale⟩
    · have length := congrArg List.length earlier
      rw [List.length_append, List.length_cons] at length
      omega
    · rfl
    · have settles := a.mode.finale_settles a.operation.access width u (by simp [finale])
      exact MicroOp.fetchesOperand_of_settles settles

theorem readsIdly_of_meets (holds : t.Holds a width offset)
    (meets : t.Meets a.opcode width m steps position (.cycle .idleProgram) r) :
    t.ReadsIdly a.opcode width m steps position r := by
  have onward := holds.dispatch_of_meets meets
  cases set_ : r.state.skipNext with
  | true =>
    rw [Run.step, if_pos set_] at onward
    exact ⟨_, onward, rfl, .inl ⟨set_, rfl⟩⟩
  | false =>
    rw [Run.step, set_, if_neg Bool.false_ne_true] at onward
    exact ⟨_, onward, by rw [← set_]; rfl, .inr ⟨set_, _, rfl⟩⟩

end Holds

structure ReadsStream (t : Table) (a : Assignment) (width : Width) (m : Machine β ε)
    (first count : Nat) (R : Registers) (operand : List UInt8) (called : Run β ε) : Prop where
  calls : t.Calls a.opcode width m (first + count) called
  inside : t.InPass a.opcode width m first (first + count)
  length : operand.length = a.mode.operandLength
  fetched : t.callsBy MicroOp.fetchesOperand a.opcode width m first count = R.operandCalls operand
  held : called.state.instructionBuffer = .ofBytes operand
  pc : called.state.registers.pc = R.pc + .ofNat a.mode.operandAdvance
  programBank : called.state.registers.programBank = R.programBank
  quiet : ∀ later, first + count ≤ later → t.InPass a.opcode width m first later →
    t.madeBy MicroOp.fetchesOperand a.opcode width m later = []

structure StreamsOperand (t : Table) (a : Assignment) (width : Width) (m : Machine β ε) : Prop where
  pass : ∀ first start, t.PassBegins a.opcode width m first start →
    ∃ count operand called,
      t.ReadsStream a width m first count start.state.registers operand called
  idle : ∀ steps position r, t.Meets a.opcode width m steps position (.cycle .idleProgram) r →
    t.ReadsIdly a.opcode width m steps position r

theorem streams_operand {assignments : List Assignment} (built : Table.build assignments = .ok t)
    (assigned : a ∈ assignments) (width : Width) (m : Machine β ε) :
    t.StreamsOperand a width m := by
  obtain ⟨offset, holds⟩ := holds_of_build built assigned width
  refine ⟨?_, fun steps position r => holds.readsIdly_of_meets⟩
  intro first start begins
  obtain ⟨called, leads⟩ :=
    leads_to_call a.mode a.operation.access a.operation (holds.fresh_of_passBegins begins)
  have split := a.mode.program_eq a.operation.access width
  obtain ⟨operand, read, made⟩ := holds.hasStreamed_of_leads begins (List.append_nil _).symm leads
  have length := a.mode.countP_prelude a.operation.access width
  have advance := a.mode.count_prelude a.operation.access width
  exact ⟨_, operand, called, holds.calls begins split leads,
    holds.inPass_of_leads begins split leads, read.length.trans length, made, read.held,
    advance ▸ read.pc, read.programBank, fun later => holds.madeBy_behind_call begins⟩

end

theorem streams_operand_wrapped :
    let a : Assignment := ⟨0x22, .absoluteLongCall, .jsl⟩
    let t := ([a].foldl Builder.accept {}).table
    let m : Machine Bench.Memory Bench.Player :=
      { state := .ofRegisters { programBank := 0x12, pc := 0xFFFE }, bus := {}, executor := {} }
    Table.build [a] = .ok t ∧ t.StreamsOperand a .eight m ∧
      (t.callsBy MicroOp.fetchesOperand a.opcode .eight m 0 7).length = 3 ∧
      (t.dispatch 7 a.opcode .eight m).2.state.registers.programAddress = 0x120000 := by
  intro a t m
  have built : Table.build [a] = .ok t := build_of_ascending (List.pairwise_singleton _ _)
  exact ⟨built, streams_operand built (List.mem_singleton_self a) .eight m, by decide +kernel,
    by decide +kernel⟩

end Table

end Microcode
