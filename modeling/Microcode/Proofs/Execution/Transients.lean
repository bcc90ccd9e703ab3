import Microcode.Bench.Reference
import Microcode.Proofs.Execution.Elision
import Microcode.Proofs.Processor.Agreement

namespace Microcode

inductive Event.LooksLike : Event → Event → Prop where
  | fetch {space : AddressSpace} {address : UInt32} {value : UInt8} :
      LooksLike (.fetch space address value) (.fetch space address value)
  | store {space : AddressSpace} {address : UInt32} {value : UInt8} :
      LooksLike (.store space address value) (.store space address value)
  | perform {operation : Operation} {width : Width} {s t : State} :
      s.toDatapath.LooksLike t.toDatapath →
        LooksLike (.perform operation width s) (.perform operation width t)

-- Executors that act alike as long as they see registers and buffers alike, and
-- that leave what else there is in a datapath alone.
structure Secluded {ε : Type} [Executor ε] (alike : ε → ε → Prop) : Prop where
  keeps : ∀ (e : ε) (operation : Operation) (width : Width) (s : State),
    (Executor.perform e operation width s).datapath.dataAddress = s.dataAddress ∧
    (Executor.perform e operation width s).datapath.incrementMask = s.incrementMask ∧
    (Executor.perform e operation width s).datapath.uncorrected = s.uncorrected
  answers : ∀ {e f : ε} (operation : Operation) (width : Width) {s t : State}, alike e f →
    s.toDatapath.LooksLike t.toDatapath →
      (Executor.perform e operation width s).completion =
        (Executor.perform f operation width t).completion ∧
      (Executor.perform e operation width s).datapath.LooksLike
        (Executor.perform f operation width t).datapath ∧
      alike (Executor.perform e operation width s).executor
        (Executor.perform f operation width t).executor

structure Run.Agrees {β ε : Type} (alike : ε → ε → Prop) (k : Known) (one two : Run β ε) : Prop where
  state : one.state.Agrees k two.state
  bus : one.bus = two.bus
  executor : alike one.executor two.executor
  cycles : one.cycles = two.cycles
  events : List.Forall₂ Event.LooksLike one.events.toList two.events.toList

theorem Event.looksLike_push {events made : Array Event} {e f : Event}
    (looks : List.Forall₂ LooksLike events.toList made.toList) (last : e.LooksLike f) :
    List.Forall₂ LooksLike (events.push e).toList (made.push f).toList := by
  rw [Array.toList_push, Array.toList_push]
  exact List.rel_append looks (.cons last .nil)

namespace Run.Agrees

variable {β ε : Type} {alike : ε → ε → Prop} {k : Known} {one two : Run β ε}

theorem weaken (agrees : Run.Agrees alike k one two) : Run.Agrees alike .nothing one two :=
  { agrees with state := ⟨agrees.state.toAgrees.weaken, agrees.state.skipNext⟩ }

theorem withDatapath {known : Known} {d e : Datapath} (agrees : Run.Agrees alike k one two)
    (after : d.Agrees known e) :
    Run.Agrees alike known (one.withDatapath d) (two.withDatapath e) :=
  { agrees with state := agrees.state.withDatapath after }

theorem unmarked (agrees : Run.Agrees alike k one two) :
    Run.Agrees alike k { one with state.skipNext := false } { two with state.skipNext := false } where
  state := ⟨agrees.state.toAgrees, rfl⟩
  bus := agrees.bus
  executor := agrees.executor
  cycles := agrees.cycles
  events := agrees.events

theorem onward (agrees : Run.Agrees alike k one two) (bus : β) {e f : Event} (looks : e.LooksLike f) :
    Run.Agrees alike k
      { one with bus, cycles := one.cycles + 1, events := one.events.push e }
      { two with bus, cycles := two.cycles + 1, events := two.events.push f } where
  state := agrees.state
  bus := rfl
  executor := agrees.executor
  cycles := congrArg (· + 1) agrees.cycles
  events := Event.looksLike_push agrees.events looks

theorem cycle [Bus β] {c : BusCycle} (ready : c.ready k = true) (agrees : Run.Agrees alike k one two) :
    (one.cycle c).1 = (two.cycle c).1 ∧ Run.Agrees alike k (one.cycle c).2 (two.cycle c).2 := by
  have asks := BusCycle.transfer_agrees ready agrees.state.toAgrees
  unfold Run.cycle
  generalize c.transfer one.state.toDatapath = first at asks ⊢
  generalize c.transfer two.state.toDatapath = second at asks ⊢
  cases asks with
  | @fetch address absorb other takes =>
    have made := agrees.onward (Bus.fetch two.bus c.space address).2
      (@Event.LooksLike.fetch c.space address (Bus.fetch two.bus c.space address).1)
    have taken := takes (Bus.fetch two.bus c.space address).1
    dsimp only
    rw [agrees.bus]
    generalize absorb (Bus.fetch two.bus c.space address).1 = x at taken ⊢
    generalize other (Bus.fetch two.bus c.space address).1 = y at taken ⊢
    cases taken with
    | ok after => exact ⟨rfl, made.withDatapath after⟩
    | error => exact ⟨rfl, made⟩
  | @store address byte d e after =>
    have made := agrees.onward (Bus.store two.bus c.space address byte)
      (@Event.LooksLike.store c.space address byte)
    dsimp only
    rw [agrees.bus]
    exact ⟨rfl, made.withDatapath after⟩
  | refused after => exact ⟨rfl, agrees.withDatapath after⟩

section

variable [Executor ε] (secluded : Secluded alike) (operation : Operation) (width : Width)
include secluded

theorem afterCall (agrees : Run.Agrees alike k one two) :
    Run.Agrees alike k (one.afterCall operation width) (two.afterCall operation width) := by
  obtain ⟨-, looks, executor⟩ := secluded.answers operation width agrees.executor agrees.state.toLooksLike
  obtain ⟨address, mask, uncorrected⟩ := secluded.keeps one.executor operation width one.state
  obtain ⟨address', mask', uncorrected'⟩ := secluded.keeps two.executor operation width two.state
  have left : Datapath.Agrees k (Executor.perform one.executor operation width one.state).datapath
      (Executor.perform two.executor operation width two.state).datapath :=
    { looks with
      address := by
        rw [address, mask, address', mask']
        exact agrees.state.address
      uncorrected := by
        rw [uncorrected, uncorrected']
        exact agrees.state.uncorrected }
  exact { agrees with
    state := agrees.state.withDatapath left
    executor
    events := Event.looksLike_push agrees.events (.perform agrees.state.toLooksLike) }

theorem repeats_iff (agrees : Run.Agrees alike k one two) :
    one.repeats operation width ↔ two.repeats operation width := by
  obtain ⟨completion, -⟩ := secluded.answers operation width agrees.executor agrees.state.toLooksLike
  simp only [repeats, completion]

theorem step [Bus β] {u : MicroOp} (ready : u.ready k = true) (agrees : Run.Agrees alike k one two) :
    (one.step operation width u).1 = (two.step operation width u).1 ∧
      ∃ known, Run.Agrees alike known (one.step operation width u).2 (two.step operation width u).2 ∧
        ((one.step operation width u).1 = .next → known = u.learn k) := by
  cases u with
  | cycle c =>
    rw [Run.step, Run.step, agrees.state.skipNext]
    by_cases set_ : two.state.skipNext = true
    · rw [if_pos set_, if_pos set_]
      exact ⟨rfl, k, agrees.unmarked, fun _ => rfl⟩
    · rw [if_neg set_, if_neg set_]
      obtain ⟨flow, after⟩ := agrees.cycle ready
      exact ⟨flow, k, after, fun _ => rfl⟩
  | construct c =>
    have outcome := c.apply_agrees agrees.state
    rw [Run.step, Run.step]
    generalize c.apply one.state = x at outcome ⊢
    generalize c.apply two.state = y at outcome ⊢
    cases outcome with
    | ok after => exact ⟨rfl, c.learn k, { agrees with state := after }, fun _ => rfl⟩
    | error => exact ⟨rfl, k, agrees, by simp⟩
  | copy c => exact ⟨rfl, k, agrees.withDatapath (c.apply_agrees width agrees.state.toAgrees), fun _ => rfl⟩
  | perform =>
    have called := agrees.afterCall secluded operation width
    have same := agrees.repeats_iff secluded operation width
    by_cases repeated : one.repeats operation width
    · rw [step_perform_of_repeats repeated, step_perform_of_repeats (same.mp repeated)]
      exact ⟨rfl, k, called.withDatapath called.state.clearBuffers, fun went => by cases went⟩
    · rw [step_perform_of_not_repeats repeated, step_perform_of_not_repeats (mt same.mpr repeated)]
      exact ⟨rfl, k, called, fun _ => rfl⟩
  | endOfProgram => exact ⟨rfl, k, agrees, fun went => by cases went⟩

end

end Run.Agrees

namespace Table

variable {β ε : Type} [Bus β] [Executor ε] {alike : ε → ε → Prop} {width : Width}

theorem walk_agrees {t : Table} {instruction : Instruction} {p : Program}
    (secluded : Secluded alike) (placed : Placed t.store instruction.offset p)
    (whole : p.ready .nothing = true) (limit : Nat) {behind ahead : Program}
    (split : p = behind ++ ahead) {k : Known} (ready : ahead.ready k = true) {one two : Run β ε}
    (agrees : Run.Agrees alike k one two) :
    (t.walk instruction width limit (instruction.offset + behind.length) one).1 =
      (t.walk instruction width limit (instruction.offset + behind.length) two).1 ∧
    Run.Agrees alike .nothing
      (t.walk instruction width limit (instruction.offset + behind.length) one).2
      (t.walk instruction width limit (instruction.offset + behind.length) two).2 := by
  -- What is known grows along a pass, and the next pass begins with nothing known.
  induction limit generalizing behind ahead k one two with
  | zero => exact ⟨rfl, agrees.weaken⟩
  | succ limit ih =>
    rw [walk, walk, placed.read split]
    cases ahead with
    | nil => exact ⟨rfl, agrees.weaken⟩
    | cons u ahead =>
      have further : p = (behind ++ [u]) ++ ahead := by simp [split]
      obtain ⟨now, later⟩ := Bool.and_eq_true_iff.mp ready
      obtain ⟨flow, known, after, learned⟩ := agrees.step secluded instruction.operation width now
      simp only [List.cons_append, List.head?_cons]
      cases first : one.step instruction.operation width u with
      | mk went next =>
        cases second : two.step instruction.operation width u with
        | mk came other =>
          rw [first, second] at flow after
          rw [first] at learned
          cases flow
          cases went with
          | next =>
            cases learned rfl
            have onward := ih further later after
            rw [List.length_append, List.length_singleton, ← Nat.add_assoc] at onward
            exact onward
          | restart => exact ih (List.nil_append p).symm whole after.weaken
          | finish | fault => exact ⟨rfl, after.weaken⟩

theorem Holds.dispatch_agrees {t : Table} {a : Assignment} {offset : Nat}
    (holds : t.Holds a width offset) (secluded : Secluded alike) {one two : Machine β ε}
    (registers : one.state.registers = two.state.registers) (bus : one.bus = two.bus)
    (executor : alike one.executor two.executor) (limit : Nat) :
    (t.dispatch limit a.opcode width one).1 = (t.dispatch limit a.opcode width two).1 ∧
      Run.Agrees alike .nothing (t.dispatch limit a.opcode width one).2
        (t.dispatch limit a.opcode width two).2 := by
  have ready := a.mode.program_ready a.operation.access width
  have placed : Placed t.store (Instruction.mk offset a.operation).offset _ := holds.placed
  have begun : Run.Agrees alike .nothing one.begin two.begin :=
    { state := ⟨⟨⟨registers, rfl, rfl⟩, nofun, nofun⟩, rfl⟩, bus, executor, cycles := rfl
      events := .nil }
  rw [holds.dispatch_eq, holds.dispatch_eq]
  exact walk_agrees secluded placed ready limit (List.nil_append _).symm ready begun

theorem forgets_transients {assignments : List Assignment} {t : Table}
    (built : Table.build assignments = .ok t) (secluded : Secluded alike) (opcode : UInt8)
    (width : Width) {one two : Machine β ε} (registers : one.state.registers = two.state.registers)
    (bus : one.bus = two.bus) (executor : alike one.executor two.executor) (limit : Nat) :
    let first := t.dispatch limit opcode width one
    let second := t.dispatch limit opcode width two
    first.1 = second.1 ∧ first.2.cycles = second.2.cycles ∧ first.2.bus = second.2.bus ∧
    alike first.2.executor second.2.executor ∧
    first.2.state.registers = second.2.state.registers ∧
    List.Forall₂ Event.LooksLike first.2.events.toList second.2.events.toList ∧
    ((∃ a ∈ assignments, a.opcode = opcode) →
      first.2.state.toDatapath.LooksLike second.2.state.toDatapath ∧
      (first.1.isFinal → first.2.state.skipNext = false ∧ second.2.state.skipNext = false)) := by
  intro first second
  by_cases free : ∀ a ∈ assignments, a.opcode ≠ opcode
  · have left : first = _ := dispatch_of_free built free width limit one
    have right : second = _ := dispatch_of_free built free width limit two
    rw [left, right]
    refine ⟨rfl, rfl, bus, executor, registers, .nil, ?_⟩
    rintro ⟨a, assigned, same⟩
    exact absurd same (free a assigned)
  · obtain ⟨a, assigned, rfl⟩ : ∃ a ∈ assignments, a.opcode = opcode := by simpa using free
    obtain ⟨offset, holds⟩ := holds_of_build built assigned width
    obtain ⟨same, agrees⟩ := holds.dispatch_agrees secluded registers bus executor limit
    refine ⟨same, agrees.cycles, agrees.bus, agrees.executor, agrees.state.registers, agrees.events,
      fun _ => ⟨agrees.state.toLooksLike, fun final => ?_⟩⟩
    have clear := holds.skipNext_of_final final
    exact ⟨clear, agrees.state.skipNext ▸ clear⟩

end Table

theorem Bench.nextByte_looksLike (operation : Operation) {d e : Datapath} (looks : d.LooksLike e) :
    (nextByte operation d).1 = (nextByte operation e).1 ∧
      (nextByte operation d).2.LooksLike (nextByte operation e).2 := by
  unfold nextByte
  rw [looks.registers, looks.instructionBuffer]
  by_cases last : e.registers.a - 1 = 0xffff
  · rw [if_pos last, if_pos last]
    exact ⟨rfl, rfl, rfl, looks.dataBuffer⟩
  · rw [if_neg last, if_neg last]
    exact ⟨rfl, rfl, rfl, looks.dataBuffer⟩

theorem Bench.Reference.effect_looksLike (operation : Operation) (width : Width) {d e : Datapath}
    (looks : d.LooksLike e) : (effect operation width d).LooksLike (effect operation width e) := by
  obtain ⟨R, I, D, A, M, U⟩ := d
  obtain ⟨R', I', D', A', M', U'⟩ := e
  cases operation with
  | mvn => exact (nextByte_looksLike .mvn looks).2
  | mvp => exact (nextByte_looksLike .mvp looks).2
  | _ =>
    obtain ⟨registers, instruction, data⟩ := looks
    cases registers
    cases instruction
    cases data
    exact ⟨rfl, rfl, rfl⟩

theorem Bench.Reference.secluded :
    Secluded (Eq : Bench.Reference → Bench.Reference → Prop) where
  keeps := by
    intro e operation width s
    cases operation with
    | mvn | mvp =>
      simp only [Executor.perform, effect, nextByte]
      split <;> exact ⟨rfl, rfl, rfl⟩
    | _ => exact ⟨rfl, rfl, rfl⟩
  answers := by
    rintro e f operation width s t rfl looks
    refine ⟨?_, effect_looksLike operation width looks, rfl⟩
    simp only [Executor.perform, (nextByte_looksLike operation looks).1]

theorem Table.forgets_transients_moving :
    let moves : List Assignment := [⟨0x54, .blockMove, .mvn⟩]
    let t := (moves.foldl Builder.accept {}).table
    let one : Machine FlatMemory Bench.Reference :=
      { state := .ofRegisters { a := 1, x := 0x10, y := 0x20, pc := 0x8000 }, bus := ⟨fun _ => 0⟩
        executor := {} }
    let two : Machine FlatMemory Bench.Reference := { one with state := { one.state with
      instructionBuffer := ⟨7, 9⟩, dataBuffer := ⟨1, 4⟩, dataAddress := 0x123456
      incrementMask := 0xFF, uncorrected := 5, skipNext := true } }
    let first := t.dispatch 40 0x54 .sixteen one
    let second := t.dispatch 40 0x54 .sixteen two
    Table.build moves = .ok t ∧ one.state.registers = two.state.registers ∧
      first.1 = .completed ∧ first.2.cycles = 12 ∧ first.1 = second.1 ∧
      first.2.cycles = second.2.cycles ∧
      List.Forall₂ Event.LooksLike first.2.events.toList second.2.events.toList ∧
      second.2.state.skipNext = false := by
  intro moves t one two first second
  have built : Table.build moves = .ok t := build_of_ascending (List.pairwise_singleton _ _)
  have ended : first.1 = .completed ∧ first.2.cycles = 12 := by decide +kernel
  have registers : one.state.registers = two.state.registers := rfl
  have bus : one.bus = two.bus := rfl
  obtain ⟨verdict, cycles, -, -, -, events, clear⟩ :=
    forgets_transients built Bench.Reference.secluded 0x54 .sixteen registers bus rfl 40
  have final : first.1.isFinal := by rw [ended.1]; rfl
  exact ⟨built, rfl, ended.1, ended.2, verdict, cycles, events, ((clear (by simp [moves])).2 final).2⟩

end Microcode
