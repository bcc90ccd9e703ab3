import Microcode.Bench.Session
import Microcode.Proofs.Mode.InPlace
import Microcode.Proofs.Mode.OperandStream
import Microcode.Proofs.Mode.Termination

namespace Microcode

namespace Registers

def moved (R : Registers) (ahead down : Nat) : Registers :=
  { R with pc := R.pc + .ofNat ahead, s := R.s - .ofNat down }

theorem moved_zero (R : Registers) : R.moved 0 0 = R := by
  simp [moved]

theorem moved_moved (R : Registers) (one two three four : Nat) :
    (R.moved one two).moved three four = R.moved (one + three) (two + four) := by
  simp only [moved, UInt16.ofNat_add, UInt16.add_assoc, Registers.mk.injEq, true_and, and_true]
  grind

structure Moved (R after : Registers) (ahead down : Nat) (written : Prop) : Prop where
  frame : after = { R.moved ahead down with a := after.a }
  accumulator : after.a = R.a ∨ written

namespace Moved

variable {R middle after : Registers} {ahead down more less : Nat} {written : Prop}

theorem refl (R : Registers) (written : Prop) : R.Moved R 0 0 written :=
  ⟨by rw [moved_zero], .inl rfl⟩

theorem mono (moved : R.Moved after ahead down written) {other : Prop} (implies : written → other) :
    R.Moved after ahead down other :=
  ⟨moved.frame, moved.accumulator.imp_right implies⟩

theorem eq_moved (moved : R.Moved after ahead down written) (kept : ¬ written) :
    after = R.moved ahead down := by
  have same := moved.accumulator.resolve_right kept
  rw [moved.frame, same]
  rfl

theorem trans (first : R.Moved middle ahead down written)
    (second : middle.Moved after more less written) :
    R.Moved after (ahead + more) (down + less) written := by
  constructor
  · rw [second.frame, first.frame, ← moved_moved]
    rfl
  · rcases second.accumulator with same | wrote
    · rw [same]
      exact first.accumulator
    · exact .inr wrote

end Moved

end Registers

theorem MicroOp.moveRegisters_moved (width : Width) (u : MicroOp) (d : Datapath) :
    d.registers.Moved (u.moveRegisters width d) ([u].count (.cycle .fetchOperand))
      ([u].count (.cycle .push)) (.copy .dataToAccumulator ∈ [u]) := by
  cases u with
  | cycle c =>
    cases c with
    | fetchOperand | push =>
      refine ⟨?_, .inl rfl⟩
      simp [Registers.moved, moveRegisters, BusCycle.moveRegisters, Registers.advance]
    | _ => exact .refl _ _
  | copy c =>
    cases c with
    | dataToAccumulator =>
      refine ⟨?_, .inr (by simp)⟩
      simp [Registers.moved, moveRegisters, Copy.apply]
    | _ => exact .refl _ _
  | _ => exact .refl _ _

namespace AddressingMode

def pushesEarly : AddressingMode → Nat
  | .absoluteIndexedIndirectCall => 2
  | .absoluteLongCall => 1
  | _ => 0

def pushesLate : AddressingMode → Nat
  | .absoluteCall | .absoluteLongCall => 2
  | _ => 0

def pushesInAll : AddressingMode → Nat
  | .absoluteCall | .absoluteIndexedIndirectCall => 2
  | .absoluteLongCall => 3
  | _ => 0

theorem pushesEarly_add_pushesLate (mode : AddressingMode) :
    mode.pushesEarly + mode.pushesLate = mode.pushesInAll := by
  cases mode <;> rfl

theorem count_push_prelude (mode : AddressingMode) (access : Access) (width : Width) :
    (mode.prelude access width).count (.cycle .push) = mode.pushesEarly := by
  cases mode <;> cases access <;> cases width <;> rfl

theorem count_push_finale (mode : AddressingMode) (access : Access) (width : Width) :
    (mode.finale access width).count (.cycle .push) = mode.pushesLate := by
  cases mode <;> cases access <;> cases width <;> rfl

theorem count_fetchOperand_finale (mode : AddressingMode) (access : Access) (width : Width) :
    (mode.finale access width).count (.cycle .fetchOperand) = 0 := by
  cases mode <;> cases access <;> cases width <;> rfl

theorem dataToAccumulator_not_mem_prelude (mode : AddressingMode) (access : Access)
    (width : Width) : .copy .dataToAccumulator ∉ mode.prelude access width := by
  cases mode <;> cases access <;> cases width <;> decide

theorem accumulator_of_mem (mode : AddressingMode) (access : Access) (width : Width)
    (member : .copy .dataToAccumulator ∈ mode.program access width) : mode = .accumulator := by
  cases mode with
  | accumulator => rfl
  | _ => cases access <;> cases width <;> revert member <;> decide

end AddressingMode

theorem BusCycle.registers_of_refused {c : BusCycle} {d after : Datapath} {cause : Fault}
    (asks : c.transfer d = .refused cause after) : after.registers = d.registers := by
  cases c with
  | storeDataDown | push =>
    simp only [transfer, Datapath.storeHighest] at asks
    split at asks
    · cases asks
    · cases asks
      rfl
  | _ => cases asks

section

variable {β ε : Type} [Bus β] {operation : Operation} {width : Width} {r next : Run β ε}
  {c : BusCycle} {cause : Fault}

theorem Run.registers_of_cycle_fault (faulted : r.cycle c = (.fault cause, next)) :
    next.state.registers = r.state.registers := by
  unfold cycle at faulted
  split at faulted
  · dsimp only at faulted
    split at faulted
    · cases faulted
    · cases faulted
      rfl
  · cases faulted
  · rename_i asks
    cases faulted
    exact BusCycle.registers_of_refused asks

theorem Run.size_of_cycle (went : r.cycle c = (.next, next)) :
    next.events.size = r.events.size + 1 := by
  unfold cycle at went
  split at went
  · dsimp only at went
    split at went
    · cases went
      exact Array.size_push _
    · cases went
  · cases went
    exact Array.size_push _
  · cases went

variable [Executor ε] {mode : AddressingMode} {access : Access} {start : Run β ε}
  {behind ahead q : Program} {u : MicroOp}

theorem Run.registers_of_fault (faulted : r.step operation width u = (.fault cause, next)) :
    next.state.registers = r.state.registers := by
  cases u with
  | cycle c =>
    rw [step] at faulted
    split at faulted
    · cases faulted
    · exact Run.registers_of_cycle_fault faulted
  | construct c =>
    rw [step] at faulted
    split at faulted
    · cases faulted
    · cases faulted
      rfl
  | perform => exact absurd faulted perform_ne_fault
  | copy | endOfProgram => cases faulted

theorem Run.moved_of_step (own : u ≠ .perform)
    (timely : r.state.skipNext = true → ∃ c, u = .cycle c ∧ c.isElidable = true)
    (stepped : r.step operation width u = (.next, next)) :
    r.state.registers.Moved next.state.registers ([u].count (.cycle .fetchOperand))
      ([u].count (.cycle .push)) (.copy .dataToAccumulator ∈ [u]) := by
  rw [Run.step_registers own timely stepped]
  exact u.moveRegisters_moved width r.state.toDatapath

theorem Leads.moved (fresh : start.state.Fresh)
    (split : mode.program access width = behind ++ (q ++ ahead))
    (front : Leads operation width behind start r) (own : .perform ∉ q)
    (leads : Leads operation width q r next) :
    r.state.registers.Moved next.state.registers (q.count (.cycle .fetchOperand))
      (q.count (.cycle .push)) (.copy .dataToAccumulator ∈ q) := by
  induction leads generalizing behind with
  | nil => exact .refl _ _
  | @cons u rest r middle next stepped _ ih =>
    obtain ⟨apart, others⟩ := List.ne_and_not_mem_of_not_mem_cons own
    have one := Run.moved_of_step apart.symm (front.timely fresh split) stepped
    have further : mode.program access width = (behind ++ [u]) ++ (rest ++ ahead) := by
      simp [split]
    have more := ih further (front.append (.single stepped)) others
    have both := (one.mono (List.mem_append_left rest)).trans (more.mono (List.mem_append_right [u]))
    rwa [← List.count_append, ← List.count_append] at both

end

section

variable {β ε : Type} [Executor ε]

structure Run.LeftAlone (r : Run β ε) (operation : Operation) (width : Width) : Prop where
  done : (Executor.perform r.executor operation width r.state).completion = .done
  datapath : (Executor.perform r.executor operation width r.state).datapath = r.state.toDatapath

theorem Run.LeftAlone.afterCall {r : Run β ε} {operation : Operation} {width : Width}
    (alone : r.LeftAlone operation width) :
    (r.afterCall operation width).state.toDatapath = r.state.toDatapath :=
  alone.datapath

end

namespace Table

section

variable {β ε : Type} [Bus β] [Executor ε]

def Quiet (t : Table) (opcode : UInt8) (width : Width) (m : Machine β ε) (first count : Nat) : Prop :=
  ∀ steps, first ≤ steps → steps < first + count → ∀ called, ¬ t.Calls opcode width m steps called

def fetched (t : Table) (opcode : UInt8) (width : Width) (m : Machine β ε) (first count : Nat) :
    List Event :=
  t.callsBy (· == .cycle .fetchOperand) opcode width m first count

def pushed (t : Table) (opcode : UInt8) (width : Width) (m : Machine β ε) (first count : Nat) :
    List Event :=
  t.callsBy (· == .cycle .push) opcode width m first count

namespace Holds

variable {t : Table} {a : Assignment} {width : Width} {offset steps position first count : Nat}
  {m : Machine β ε} {u : MicroOp} {start called r next : Run β ε} {cause : Fault} {c : BusCycle}

theorem refused_of_meets (holds : t.Holds a width offset)
    (meets : t.Meets a.opcode width m steps position u r)
    (faulted : r.step a.operation width u = (.fault cause, next)) :
    u.takesHighest = true ∧ next.events = r.events := by
  have program : u ≠ .endOfProgram := by
    rintro rfl
    cases faulted
  obtain ⟨start, behind, ahead, starts, split, leads, -⟩ := holds.parts_of_meets meets program
  have fresh := starts.fresh m.state.beginInstruction_fresh
  have clear := leads.clear_of_fault fresh split faulted
  rcases AddressingMode.split_cases split with ⟨rest, before⟩ | ⟨rfl, -⟩ | ⟨front, -, finale⟩
  · obtain ⟨called, through⟩ := leads_to_call a.mode a.operation.access a.operation fresh
    rw [before] at through
    exact absurd faulted (through.step_ne_fault leads)
  · exact absurd faulted Run.perform_ne_fault
  · have settles := a.mode.finale_settles a.operation.access width u (by simp [finale])
    by_cases room : u.takesHighest = true → r.state.dataBuffer.size.toNat ≤ 4
    · obtain ⟨after, stepped, -⟩ := Run.step_settles a.operation width settles clear room
      cases faulted.symm.trans stepped
    · push Not at room
      obtain ⟨after, refused⟩ := Run.step_overfilled a.operation width room.1 clear room.2
      cases faulted.symm.trans refused
      exact ⟨room.1, rfl⟩

theorem length_madeBy (holds : t.Holds a width offset)
    (meets : t.Meets a.opcode width m steps position u r) (performed : c.isElidable = false)
    (stepped : r.step a.operation width u = (.next, next)) :
    (t.madeBy (· == .cycle c) a.opcode width m steps).length = [u].count (.cycle c) := by
  by_cases same : u = .cycle c
  · subst same
    have clear : ¬ r.state.skipNext = true := fun set_ =>
      Bool.false_ne_true (performed.symm.trans (holds.elidable_of_meets meets set_))
    rw [madeBy_of_kind meets (by simp), holds.dispatch_of_meets meets, stepped,
      List.length_drop, Array.length_toList]
    rw [Run.step, if_neg clear] at stepped
    rw [Run.size_of_cycle stepped, List.count_singleton_self]
    omega
  · rw [madeBy_of_other meets (by simp [same]), List.count_singleton, if_neg (by simp [same])]
    rfl

theorem madeBy_of_final (holds : t.Holds a width offset)
    (final : (t.dispatch steps a.opcode width m).1.isFinal) (kind : MicroOp → Bool) :
    t.madeBy kind a.opcode width m steps = [] := by
  refine holds.madeBy_eq_nil fun position u r meets => ?_
  rw [meets.stands] at final
  cases final

theorem moved_of_next (holds : t.Holds a width offset)
    (meets : t.Meets a.opcode width m steps position u r) (own : u ≠ .perform)
    (stepped : r.step a.operation width u = (.next, next)) :
    r.state.registers.Moved next.state.registers
      (t.madeBy (· == .cycle .fetchOperand) a.opcode width m steps).length
      (t.madeBy (· == .cycle .push) a.opcode width m steps).length (a.mode = .accumulator) := by
  rw [holds.length_madeBy meets rfl stepped, holds.length_madeBy meets rfl stepped]
  refine (Run.moved_of_step own (holds.cycle_of_marked meets) stepped).mono fun wrote => ?_
  cases List.mem_singleton.mp wrote
  obtain ⟨-, behind, ahead, -, split, -⟩ := holds.parts_of_meets meets nofun
  exact a.mode.accumulator_of_mem a.operation.access width (by simp [split])

theorem moved_of_fault (holds : t.Holds a width offset)
    (meets : t.Meets a.opcode width m steps position u r)
    (faulted : r.step a.operation width u = (.fault cause, next)) :
    r.state.registers.Moved next.state.registers
      (t.madeBy (· == .cycle .fetchOperand) a.opcode width m steps).length
      (t.madeBy (· == .cycle .push) a.opcode width m steps).length (a.mode = .accumulator) := by
  obtain ⟨takes, events⟩ := holds.refused_of_meets meets faulted
  have none : t.madeBy (· == .cycle .push) a.opcode width m steps = [] := by
    by_cases same : u = .cycle .push
    · rw [madeBy_of_kind meets (by simp [same]), holds.dispatch_of_meets meets, faulted]
      dsimp only
      rw [events, List.drop_eq_nil_iff.mpr (Nat.le_of_eq Array.length_toList)]
    · exact madeBy_of_other meets (by simp [same])
  have other : u ≠ .cycle .fetchOperand := by
    rintro rfl
    cases takes
  rw [madeBy_of_other meets (by simp [other]), none, Run.registers_of_fault faulted]
  exact .refl _ _

theorem moved_succ (holds : t.Holds a width offset)
    (quiet : ∀ called, ¬ t.Calls a.opcode width m steps called) :
    (t.dispatch steps a.opcode width m).2.state.registers.Moved
      (t.dispatch (steps + 1) a.opcode width m).2.state.registers
      (t.madeBy (· == .cycle .fetchOperand) a.opcode width m steps).length
      (t.madeBy (· == .cycle .push) a.opcode width m steps).length (a.mode = .accumulator) := by
  cases stood : t.dispatch steps a.opcode width m with
  | mk verdict r =>
    cases verdict with
    | unfinished position =>
      obtain ⟨u, meets⟩ := holds.meets_next stood
      have own : u ≠ .perform := by
        rintro rfl
        exact quiet r ⟨position, meets.stands, meets.read⟩
      have flows := r.step_flow a.operation width u
      cases stepped : r.step a.operation width u with
      | mk flow next =>
        rw [holds.dispatch_of_meets meets, stepped]
        rw [stepped] at flows
        rcases flows with rfl | ⟨cause, rfl, -⟩ | ⟨-, same⟩ | ⟨rfl, same⟩
        · exact holds.moved_of_next meets own stepped
        · exact holds.moved_of_fault meets stepped
        · exact absurd same own
        · subst same
          cases stepped
          rw [madeBy_of_other meets rfl, madeBy_of_other meets rfl]
          exact .refl _ _
    | completed | illegal | faulted =>
      have final : (t.dispatch steps a.opcode width m).1.isFinal := by
        rw [stood]
        rfl
      rw [holds.dispatch_of_final final, holds.madeBy_of_final final,
        holds.madeBy_of_final final, stood]
      exact .refl _ _

theorem moved_of_quiet (holds : t.Holds a width offset)
    (quiet : t.Quiet a.opcode width m first count) :
    (t.dispatch first a.opcode width m).2.state.registers.Moved
      (t.dispatch (first + count) a.opcode width m).2.state.registers
      (t.fetched a.opcode width m first count).length (t.pushed a.opcode width m first count).length
      (a.mode = .accumulator) := by
  induction count with
  | zero => exact .refl _ _
  | succ count ih =>
    have earlier := ih fun steps from_ before => quiet steps from_ (by omega)
    have last := holds.moved_succ (quiet (first + count) (Nat.le_add_right ..) (by omega))
    rw [fetched, pushed, callsBy_succ, callsBy_succ, List.length_append, List.length_append]
    exact earlier.trans last

theorem registers_of_called (holds : t.Holds a width offset)
    (begins : t.PassBegins a.opcode width m first start)
    (leads : Leads a.operation width (a.mode.prelude a.operation.access width) start called) :
    called.state.registers =
      start.state.registers.moved a.mode.operandAdvance a.mode.pushesEarly := by
  have fresh := holds.fresh_of_passBegins begins
  have moved := Leads.moved fresh (a.mode.program_eq a.operation.access width) .nil
    (a.mode.perform_not_mem_prelude a.operation.access width) leads
  rw [a.mode.count_prelude, a.mode.count_push_prelude] at moved
  exact moved.eq_moved (a.mode.dataToAccumulator_not_mem_prelude a.operation.access width)

theorem moved_behind_call (holds : t.Holds a width offset)
    (begins : t.PassBegins a.opcode width m first start)
    (leads : Leads a.operation width (a.mode.prelude a.operation.access width) start called)
    (once : ¬ called.repeats a.operation width)
    (later : Leads a.operation width (a.mode.finale a.operation.access width)
      (called.afterCall a.operation width) r) :
    (called.afterCall a.operation width).state.registers.Moved r.state.registers 0
      a.mode.pushesLate (a.mode = .accumulator) := by
  have split := a.mode.program_eq a.operation.access width
  have whole : a.mode.program a.operation.access width =
      (a.mode.prelude a.operation.access width ++ [.perform]) ++
        (a.mode.finale a.operation.access width ++ []) := by
    simp [split]
  have moved := Leads.moved (holds.fresh_of_passBegins begins) whole
    (leads.append (.single (Run.step_perform_of_not_repeats once)))
    (a.mode.perform_not_mem_finale a.operation.access width) later
  rw [a.mode.count_fetchOperand_finale, a.mode.count_push_finale] at moved
  refine moved.mono fun member => a.mode.accumulator_of_mem a.operation.access width ?_
  simp [split, member]

theorem calls_of_fetchOperand (holds : t.Holds a width offset)
    (meets : t.Meets a.opcode width m steps position (.cycle .fetchOperand) r) :
    ∃ later called, steps < later ∧ t.Calls a.opcode width m later called := by
  obtain ⟨first, start, behind, ahead, begins, split, -, rfl, -⟩ := holds.pass_of_meets meets nofun
  obtain ⟨called, leads, calls, -⟩ := holds.called_of_passBegins begins
  refine ⟨_, called, ?_, calls⟩
  rcases AddressingMode.split_cases split with ⟨rest, before⟩ | ⟨other, -⟩ | ⟨front, -, finale⟩
  · rw [before, List.length_append, List.length_cons]
    omega
  · cases other
  · cases a.mode.finale_settles a.operation.access width (.cycle .fetchOperand) (by simp [finale])

theorem fetched_of_last (holds : t.Holds a width offset)
    (last : ∀ later, steps < later → ∀ called, ¬ t.Calls a.opcode width m later called)
    (count : Nat) : t.fetched a.opcode width m (steps + 1) count = [] := by
  refine List.flatMap_eq_nil_iff.mpr fun i _ => holds.madeBy_eq_nil fun position u r meets => ?_
  refine beq_eq_false_iff_ne.mpr ?_
  rintro rfl
  obtain ⟨later, called, after, calls⟩ := holds.calls_of_fetchOperand meets
  exact last later (by omega) called calls

theorem accumulator_of_leftAlone (holds : t.Holds a width offset) (mode : a.mode = .accumulator)
    (begins : t.PassBegins a.opcode width m first start)
    (leads : Leads a.operation width (a.mode.prelude a.operation.access width) start called)
    (alone : called.LeftAlone a.operation width)
    (later : Leads a.operation width (a.mode.finale a.operation.access width)
      (called.afterCall a.operation width) r) :
    r.state.registers.a = called.state.registers.a := by
  have fresh := holds.fresh_of_passBegins begins
  rw [mode] at leads later
  obtain ⟨other, calls, again, -, -, -, -, same, held, -⟩ :=
    Yields.accumulator.run start fresh
  cases again.functional leads
  cases later with
  | cons stepped rest =>
    cases rest
    cases stepped
    rw [Run.withDatapath, alone.afterCall]
    exact Copy.dataToAccumulator_restores width (by rw [held, same])

theorem completes_of_leftAlone (holds : t.Holds a width offset)
    (alone : ∀ steps called, t.Calls a.opcode width m steps called →
      called.LeftAlone a.operation width) {limit : Nat}
    (enough : (a.mode.program a.operation.access width).length < limit) :
    ∃ r, t.dispatch limit a.opcode width m = (.completed, r) ∧
      r.state.registers = m.state.registers.moved a.mode.operandAdvance a.mode.pushesInAll := by
  have begins := holds.passBegins_first m
  have fresh := holds.fresh_of_passBegins begins
  have split := a.mode.program_eq a.operation.access width
  obtain ⟨f, after, fits, -⟩ := AddressingMode.fits_of_split split
  obtain ⟨called, leads, fills⟩ :=
    leads_of_fits (a.mode.perform_not_mem_prelude a.operation.access width) fits fresh.fills
  have left := alone _ called (holds.calls begins split leads)
  have once : ¬ called.repeats a.operation width := fun repeated => by
    cases left.done.symm.trans repeated.1
  -- The data buffer holds no more than the pass has put into it.
  have room : ¬ called.Overfills a.operation width := by
    rw [Run.Overfills, left.afterCall]
    exact Nat.not_lt.mpr (Nat.le_trans fills.data.size f.data_le)
  rw [← Nat.zero_add (List.length _)] at enough
  obtain ⟨r, ended, later⟩ := holds.completes_of_room begins leads once room enough
  refine ⟨r, ended, ?_⟩
  have early := holds.registers_of_called begins leads
  have late := holds.moved_behind_call begins leads once later
  rw [left.afterCall] at late
  have kept : r.state.registers.a = called.state.registers.a := by
    rcases late.accumulator with same | mode
    · exact same
    · exact holds.accumulator_of_leftAlone mode begins leads left later
  rw [late.frame, kept, early, ← a.mode.pushesEarly_add_pushesLate]
  exact Registers.moved_moved ..

end Holds

structure FramesRegisters (t : Table) (a : Assignment) (width : Width) (m : Machine β ε) : Prop where
  -- Between two calls of the executor PC counts the operand bytes fetched and S the
  -- bytes pushed, however the dispatch goes on or ends.
  between : ∀ first count, t.Quiet a.opcode width m first count →
    (t.dispatch first a.opcode width m).2.state.registers.Moved
      (t.dispatch (first + count) a.opcode width m).2.state.registers
      (t.fetched a.opcode width m first count).length (t.pushed a.opcode width m first count).length
      (a.mode = .accumulator)
  begun : (t.dispatch 0 a.opcode width m).2.state.registers = m.state.registers
  performed : ∀ steps called, t.Calls a.opcode width m steps called →
    (t.dispatch (steps + 1) a.opcode width m).2.state.registers =
      (Executor.perform called.executor a.operation width called.state).datapath.registers
  called : ∃ steps called, t.Calls a.opcode width m steps called ∧
    Event.performs called.events = 0 ∧
    called.state.registers = m.state.registers.moved a.mode.operandAdvance a.mode.pushesEarly
  behind : ∀ steps, (∀ later, steps < later → ∀ called, ¬ t.Calls a.opcode width m later called) →
    ∀ count, (t.dispatch (steps + 1) a.opcode width m).2.state.registers.Moved
      (t.dispatch (steps + 1 + count) a.opcode width m).2.state.registers 0
      (t.pushed a.opcode width m (steps + 1) count).length (a.mode = .accumulator)
  completed : t.SinglePass a.opcode width m → ∀ limit r,
    t.dispatch limit a.opcode width m = (.completed, r) →
      ∃ steps called, t.Calls a.opcode width m steps called ∧
        called.state.registers = m.state.registers.moved a.mode.operandAdvance a.mode.pushesEarly ∧
        (called.afterCall a.operation width).state.registers.Moved r.state.registers 0
          a.mode.pushesLate (a.mode = .accumulator)
  pushes : a.mode.pushesEarly + a.mode.pushesLate = a.mode.pushesInAll
  alone : (∀ steps called, t.Calls a.opcode width m steps called →
      called.LeftAlone a.operation width) →
    ∀ limit, (a.mode.program a.operation.access width).length < limit →
      ∃ r, t.dispatch limit a.opcode width m = (.completed, r) ∧
        r.state.registers = m.state.registers.moved a.mode.operandAdvance a.mode.pushesInAll

theorem frames_registers {assignments : List Assignment} {t : Table}
    (built : Table.build assignments = .ok t) {a : Assignment} (assigned : a ∈ assignments)
    (width : Width) (m : Machine β ε) : t.FramesRegisters a width m := by
  obtain ⟨offset, holds⟩ := holds_of_build built assigned width
  have begins := holds.passBegins_first m
  have split := a.mode.program_eq a.operation.access width
  obtain ⟨called, leads, calls, none⟩ := holds.called_of_passBegins begins
  have registers := holds.registers_of_called begins leads
  refine ⟨fun first count => holds.moved_of_quiet, ?_, ?_, ⟨_, called, calls, none, registers⟩, ?_,
    ?_, a.mode.pushesEarly_add_pushesLate, fun alone limit => holds.completes_of_leftAlone alone⟩
  · rw [holds.dispatch_of_passBegins begins]
    rfl
  · rintro steps called ⟨position, stands, read⟩
    rw [holds.dispatch_of_meets ⟨stands, read⟩]
    by_cases repeated : called.repeats a.operation width
    · rw [Run.step_perform_of_repeats repeated]
      rfl
    · rw [Run.step_perform_of_not_repeats repeated]
      rfl
  · intro steps last count
    have quiet : t.Quiet a.opcode width m (steps + 1) count := fun later from_ _ => last later from_
    have moved := holds.moved_of_quiet quiet
    rwa [holds.fetched_of_last last] at moved
  · intro single limit r ended
    have once := holds.not_repeats single split leads
    have later := holds.leads_of_completed single split leads ended
    have late := holds.moved_behind_call begins leads once later
    exact ⟨_, called, calls, registers, late⟩

-- The executor moves X and S. A byte is pushed before it is called, and two are
-- pushed behind.
theorem frames_registers_call :
    let a : Assignment := ⟨0x22, .absoluteLongCall, .jsl⟩
    let t := ([a].foldl Builder.accept {}).table
    let m : Machine Bench.Memory Bench.Player :=
      { state := .ofRegisters { a := 0xBEEF, pc := 0xFFFF, s := 1, programBank := 0x7E }
        bus := {}
        executor := { scripts := [[.act (.set [.x 0x1234, .s 0x0100])]] } }
    Table.build [a] = .ok t ∧ t.FramesRegisters a .eight m ∧
      (t.pushed a.opcode .eight m 0 20).length = 3 ∧
      (t.dispatch 20 a.opcode .eight m).2.state.registers =
        { m.state.registers with pc := 1, x := 0x1234, s := 0x00FE } := by
  intro a t m
  have built : Table.build [a] = .ok t := build_of_ascending (List.pairwise_singleton _ _)
  exact ⟨built, frames_registers built (List.mem_singleton_self a) .eight m, by decide +kernel,
    by decide +kernel⟩

end

end Table

end Microcode
