import Microcode.Bench.Reference
import Microcode.Proofs.Execution.Filling
import Microcode.Proofs.Execution.FlatMemory
import Microcode.Proofs.Execution.Steps

namespace Microcode

structure Datapath.Sound (d : Datapath) : Prop extends Datapath.Aimed d where
  operand : d.instructionBuffer.Within 3
  data : d.dataBuffer.Within 4

theorem Datapath.Fills.sound {d : Datapath} {f : Filling} (fills : d.Fills f) (aimed : d.Aimed) :
    d.Sound :=
  ⟨aimed, fills.operand.mono f.operand_le, fills.data.mono f.data_le⟩

def Tidy (ε : Type) [Executor ε] : Prop :=
  ∀ (e : ε) (operation : Operation) (width : Width) (s : State),
    let left := (Executor.perform e operation width s).datapath
    left = { s.toDatapath with registers := left.registers, dataBuffer := left.dataBuffer } ∧
      (s.dataBuffer.Within 4 → left.dataBuffer.Within 4)

def Transfer.Asks (place : UInt32 → Prop) : Transfer → Prop
  | .fetch address _ => place address
  | .store address _ _ => place address
  | .refused _ _ => True

def Event.Reaches (R : Registers) : Event → Prop
  | .fetch space address _ => R.Reaches space address
  | .store space address _ => R.Reaches space address
  | .perform _ _ _ => True

namespace Registers

theorem reaches_program (R : Registers) : R.Reaches .program R.programAddress where
  inside := toNat_inBank_lt ..
  program _ := by
    have low := R.pc.toNat_lt
    rw [programAddress, toNat_inBank]
    omega
  stack := nofun

theorem reaches_stack (R : Registers) : R.Reaches .stack R.s.toUInt32 where
  inside := by
    have low := R.s.toNat_lt
    rw [UInt16.toNat_toUInt32]
    omega
  program := nofun
  stack _ := UInt16.toNat_toUInt32 _

theorem reaches_data (R : Registers) {address : UInt32} (inside : address.toNat < 0x1000000) :
    R.Reaches .data address where
  inside := inside
  program := nofun
  stack := nofun

end Registers

theorem Datapath.storeHighest_asks {d : Datapath} {address : UInt32} {place : UInt32 → Prop}
    (there : place address) (settle : Datapath → Datapath) :
    (d.storeHighest address settle).Asks place := by
  unfold storeHighest
  split
  · exact there
  · trivial

theorem BusCycle.transfer_asks (c : BusCycle) {d : Datapath} (aimed : d.Aimed) :
    (c.transfer d).Asks (d.registers.Reaches c.space) := by
  cases c with
  | fetchOperand | fetchLastOperand | idleProgram => exact d.registers.reaches_program
  | fetchData | fetchDataUp | idleData | storeData | storeDataUp | rewriteData =>
    exact d.registers.reaches_data aimed.address
  | storeDataDown => exact Datapath.storeHighest_asks (d.registers.reaches_data aimed.address) _
  | idleUncorrected => exact d.registers.reaches_data aimed.uncorrected
  | fetchSource | storeDestination | idleDestination =>
    exact d.registers.reaches_data (toNat_inBank_lt ..)
  | push => exact Datapath.storeHighest_asks d.registers.reaches_stack _
  | idleStack => exact d.registers.reaches_stack

theorem Run.afterCall_leaves {β ε : Type} [Executor ε] (tidy : Tidy ε) (operation : Operation)
    (width : Width) {f after : Filling} (fits : MicroOp.perform.fill? f = some after)
    {r : Run β ε} (fills : r.state.toDatapath.Fills f) :
    (r.afterCall operation width).state.toDatapath.Fills after ∧
      (r.state.toDatapath.Aimed → (r.afterCall operation width).state.toDatapath.Aimed) := by
  obtain ⟨frame, unspoilt⟩ := tidy r.executor operation width r.state
  have operand := congrArg Datapath.instructionBuffer frame
  have address := congrArg Datapath.dataAddress frame
  have mask := congrArg Datapath.incrementMask frame
  have uncorrected := congrArg Datapath.uncorrected frame
  cases fits
  constructor
  · refine ⟨?_, unspoilt (fills.data.mono f.data_le)⟩
    exact operand ▸ fills.operand
  · intro aimed
    exact ⟨address ▸ aimed.address, mask ▸ aimed.mask, uncorrected ▸ aimed.uncorrected⟩

section

variable {β ε : Type} [Bus β] [Executor ε] {operation : Operation} {width : Width}

theorem Run.step_reaches {r : Run β ε} (aimed : r.state.toDatapath.Aimed) (u : MicroOp) :
    ∃ made, (r.step operation width u).2.events.toList = r.events.toList ++ made ∧
      ∀ e ∈ made, e.Reaches r.state.registers := by
  cases u with
  | cycle c =>
    rw [step]
    split
    · exact ⟨[], by simp, by simp⟩
    · have asks := c.transfer_asks aimed
      unfold cycle
      cases transfer : c.transfer r.state.toDatapath with
      | fetch address absorb =>
        rw [transfer] at asks
        refine ⟨[.fetch c.space address (Bus.fetch r.bus c.space address).1], ?_,
          List.forall_mem_singleton.mpr asks⟩
        dsimp only
        split <;> exact Array.toList_push
      | store address byte after =>
        rw [transfer] at asks
        exact ⟨[.store c.space address byte], Array.toList_push, List.forall_mem_singleton.mpr asks⟩
      | refused => exact ⟨[], by simp [withDatapath], by simp⟩
  | construct c =>
    rw [step]
    split <;> exact ⟨[], by simp, by simp⟩
  | copy c => exact ⟨[], by simp [step, withDatapath], by simp⟩
  | perform =>
    refine ⟨[.perform operation width r.state], ?_, by simp [Event.Reaches]⟩
    by_cases repeated : r.repeats operation width
    · rw [step_perform_of_repeats repeated]
      exact Array.toList_push
    · rw [step_perform_of_not_repeats repeated]
      exact Array.toList_push
  | endOfProgram => exact ⟨[], by simp [step], by simp⟩

theorem Leads.leaves (tidy : Tidy ε) {q : Program} {r next : Run β ε}
    (leads : Leads operation width q r next) {f after : Filling} (fits : q.fill? f = some after)
    (fills : r.state.toDatapath.Fills f) :
    next.state.toDatapath.Fills after ∧
      (r.state.toDatapath.Aimed → next.state.toDatapath.Aimed) := by
  induction leads generalizing f with
  | nil =>
    cases fits
    exact ⟨fills, id⟩
  | @cons u rest r middle next stepped _ ih =>
    obtain ⟨between, first, later⟩ := Program.fill?_cons_iff.mp fits
    have left : middle.state.toDatapath.Fills between ∧
        (r.state.toDatapath.Aimed → middle.state.toDatapath.Aimed) := by
      by_cases own : u = .perform
      · subst own
        obtain ⟨-, rfl⟩ := Run.of_performed stepped
        exact Run.afterCall_leaves tidy operation width first fills
      · obtain ⟨there, again, left⟩ := Run.step_leaves own first fills
        rw [again] at stepped
        cases stepped
        exact left
    obtain ⟨filled, aims⟩ := ih later left.1
    exact ⟨filled, fun aimed => aims (left.2 aimed)⟩

-- A pass begins with empty buffers, so only the addresses come down from the pass before.
theorem Starts.aimed (tidy : Tidy ε) {mode : AddressingMode} {access : Access}
    {first start : Run β ε} (fresh : first.state.Fresh) (aimed : first.state.toDatapath.Aimed)
    (starts : Starts (mode.program access width) operation width first start) :
    start.state.toDatapath.Aimed := by
  induction starts with
  | first => exact aimed
  | again earlier split leads stepped ih =>
    obtain ⟨rfl, -, rfl⟩ := Run.of_restarted stepped
    obtain ⟨f, after, before, call⟩ := AddressingMode.fits_of_place split
    obtain ⟨fills, aims⟩ := leads.leaves tidy before (earlier.fresh fresh).fills
    have left := (Run.afterCall_leaves tidy operation width call fills).2 (aims ih)
    exact ⟨left.address, left.mask, left.uncorrected⟩

theorem State.beginInstruction_aimed {s : State} (aimed : s.toDatapath.Aimed) :
    s.beginInstruction.toDatapath.Aimed :=
  ⟨aimed.address, aimed.mask, aimed.uncorrected⟩

namespace Table

namespace Holds

variable {t : Table} {a : Assignment} {offset : Nat} {m : Machine β ε} {start middle : Run β ε}
  {behind ahead : Program}

theorem sound_of_leads (tidy : Tidy ε) (aimed : m.state.toDatapath.Aimed)
    (starts : Starts (a.mode.program a.operation.access width) a.operation width m.begin start)
    (split : a.mode.program a.operation.access width = behind ++ ahead)
    (leads : Leads a.operation width behind start middle) :
    ∃ f after, middle.state.toDatapath.Fills f ∧ middle.state.toDatapath.Aimed ∧
      ahead.fill? f = some after := by
  have fresh := starts.fresh m.state.beginInstruction_fresh
  have begun := starts.aimed tidy m.state.beginInstruction_fresh (State.beginInstruction_aimed aimed)
  obtain ⟨f, after, before, later⟩ := AddressingMode.fits_of_split split
  obtain ⟨fills, aims⟩ := leads.leaves tidy before fresh.fills
  exact ⟨f, after, fills, aims begun, later⟩

theorem dispatch_sound (holds : t.Holds a width offset) (tidy : Tidy ε)
    (aimed : m.state.toDatapath.Aimed) (steps : Nat) :
    (t.dispatch steps a.opcode width m).2.state.toDatapath.Sound ∧
      ∀ cause, (t.dispatch steps a.opcode width m).1 ≠ .faulted cause := by
  have stops := holds.stops steps m
  generalize t.dispatch steps a.opcode width m = ended at stops
  cases stops with
  | unfinished starts split leads =>
    obtain ⟨f, after, fills, there, -⟩ := sound_of_leads tidy aimed starts split leads
    exact ⟨fills.sound there, nofun⟩
  | completed starts leads =>
    obtain ⟨f, after, fills, there, -⟩ :=
      sound_of_leads tidy aimed starts (List.append_nil _).symm leads
    exact ⟨fills.sound there, nofun⟩
  | @faulted start middle r u behind ahead cause starts split leads faulted =>
    obtain ⟨f, after, fills, there, later⟩ := sound_of_leads tidy aimed starts split leads
    obtain ⟨next, fits, -⟩ := Program.fill?_cons_iff.mp later
    exact absurd faulted (Run.step_ne_fault fits fills)

end Holds

-- A session starts from registers alone and goes from dispatch to dispatch. Between
-- them the caller may set registers, as it has to for fetching the next opcode, and
-- do as it likes with bus and executor.
inductive Session (t : Table) : Machine β ε → Prop where
  | start (registers : Registers) (bus : β) (executor : ε) :
      Session t ⟨.ofRegisters registers, bus, executor⟩
  | returned {m : Machine β ε} {limit : Nat} {opcode : UInt8} {width : Width} :
      Session t m → (t.dispatch limit opcode width m).1 = .completed →
        Session t (t.dispatch limit opcode width m).2.toMachine
  | refused {m : Machine β ε} {limit : Nat} {opcode : UInt8} {width : Width} {error : IllegalOpcode} :
      Session t m → (t.dispatch limit opcode width m).1 = .illegal error →
        Session t (t.dispatch limit opcode width m).2.toMachine
  | between {m : Machine β ε} (registers : Registers) (bus : β) (executor : ε) :
      Session t m → Session t ⟨{ m.state with registers }, bus, executor⟩

theorem Session.sound {assignments : List Assignment} {t : Table}
    (built : Table.build assignments = .ok t) (tidy : Tidy ε) {m : Machine β ε}
    (session : t.Session m) : m.state.toDatapath.Sound := by
  induction session with
  | start registers bus executor =>
    have zero : (0 : UInt32).toNat < 0x1000000 := by decide
    have aimed : (State.ofRegisters registers).toDatapath.Aimed := ⟨zero, .inl rfl, zero⟩
    exact ⟨aimed, Buffer.within_empty 3, Buffer.within_empty 4⟩
  | @returned m limit opcode width earlier ended ih =>
    obtain ⟨a, assigned, rfl⟩ := assigned_of_dispatch built (Prod.ext ended rfl) nofun
    obtain ⟨offset, holds⟩ := holds_of_build built assigned width
    exact (holds.dispatch_sound tidy ih.toAimed limit).1
  | @refused m limit opcode width error earlier ended ih =>
    rw [dispatch_of_free built (free_of_dispatch built ended)]
    exact ih
  | between registers bus executor earlier ih =>
    exact ⟨⟨ih.address, ih.mask, ih.uncorrected⟩, ih.operand, ih.data⟩

structure StaysSound (t : Table) (opcode : UInt8) (width : Width) (m : Machine β ε) (steps : Nat) :
    Prop where
  sound : (t.dispatch steps opcode width m).2.state.toDatapath.Sound
  faultless : ∀ cause, (t.dispatch steps opcode width m).1 ≠ .faulted cause
  reaches : ∀ position r, t.dispatch steps opcode width m = (.unfinished position, r) →
    ∃ made, (t.dispatch (steps + 1) opcode width m).2.events.toList = r.events.toList ++ made ∧
      ∀ e ∈ made, e.Reaches r.state.registers

theorem session_stays_sound {assignments : List Assignment} {t : Table}
    (built : Table.build assignments = .ok t) (tidy : Tidy ε) {m : Machine β ε}
    (session : t.Session m) (opcode : UInt8) (width : Width) (steps : Nat) :
    t.StaysSound opcode width m steps := by
  have begun := session.sound built tidy
  by_cases free : ∀ a ∈ assignments, a.opcode ≠ opcode
  · have refused := dispatch_of_free built free width steps m
    constructor
    · rw [refused]
      exact begun
    · intro cause
      rw [refused]
      nofun
    · intro position r stands
      rw [refused] at stands
      cases stands
  · obtain ⟨a, assigned, rfl⟩ : ∃ a ∈ assignments, a.opcode = opcode := by simpa using free
    obtain ⟨offset, holds⟩ := holds_of_build built assigned width
    obtain ⟨sound, faultless⟩ := holds.dispatch_sound tidy begun.toAimed steps
    refine ⟨sound, faultless, fun position r stands => ?_⟩
    obtain ⟨u, meets⟩ := holds.meets_next stands
    rw [stands] at sound
    rw [holds.dispatch_of_meets meets]
    exact Run.step_reaches sound.toAimed u

end Table

end

theorem Bench.Reference.tidy : Tidy Bench.Reference := by
  intro e operation width s
  have bytes : width.bytes.toNat < 4 := by cases width <;> decide
  have few : ∀ value, (Buffer.ofValue value width.bytes).Within 4 := fun value =>
    (Buffer.within_ofValue value bytes).mono (Nat.le_of_lt bytes)
  have two : ∀ value, (Buffer.ofValue value 2).Within 4 := fun value =>
    (Buffer.within_ofValue value (by decide)).mono (by decide)
  cases operation with
  | mvn | mvp =>
    simp only [Executor.perform, effect, nextByte]
    split <;> exact ⟨rfl, id⟩
  | sta | stx | sty | stz | asl | lsr | inc | dec | rol | ror | trb | tsb =>
    exact ⟨rfl, fun _ => few _⟩
  | jsr | jsl => exact ⟨rfl, fun _ => two _⟩
  | _ => exact ⟨rfl, id⟩

theorem Table.session_stays_sound_loaded :
    let both : List Assignment :=
      [⟨0x92, .directIndirect, .sta⟩, ⟨0xB1, .directIndirectIndexed, .lda⟩]
    let t := (both.foldl Builder.accept {}).table
    let m : Machine FlatMemory Bench.Reference :=
      { state := .ofRegisters { y := 0xFFFF }, bus := ⟨fun address => address.toUInt8⟩
        executor := {} }
    let loaded := t.dispatch 20 0xB1 .sixteen m
    let again : Machine FlatMemory Bench.Reference :=
      { loaded.2.toMachine with
        state := { loaded.2.state with registers.dataBank := 0xFF } }
    Table.build both = .ok t ∧ Tidy Bench.Reference ∧ t.Session again ∧
      t.StaysSound 0x92 .sixteen again 4 := by
  intro both t m loaded again
  have built : Table.build both = .ok t := build_of_ascending (by decide)
  have started : t.Session m := .start { y := 0xFFFF } _ _
  have ended : loaded.1 = .completed := by decide +kernel
  have session : t.Session again := .between _ _ _ (.returned started ended)
  exact ⟨built, Bench.Reference.tidy, session,
    session_stays_sound built Bench.Reference.tidy session 0x92 .sixteen 4⟩

end Microcode
