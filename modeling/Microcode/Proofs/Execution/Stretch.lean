import Microcode.Proofs.Execution.Passes
import Microcode.Proofs.Processor.Constructions

namespace Microcode

def Event.isBusCall : Event → Bool
  | .perform _ _ _ => false
  | _ => true

def Event.isStore : Event → Bool
  | .store _ _ _ => true
  | _ => false

namespace Event

def fetches (space : AddressSpace) (address : Nat → UInt32) (bytes : List UInt8) : List Event :=
  bytes.mapIdx fun i byte => .fetch space (address i) byte

theorem fetches_cons (space : AddressSpace) (address : Nat → UInt32) (byte : UInt8)
    (rest : List UInt8) :
    fetches space address (byte :: rest) =
      .fetch space (address 0) byte :: fetches space (fun i => address (i + 1)) rest :=
  List.mapIdx_cons

theorem length_fetches (space : AddressSpace) (address : Nat → UInt32) (bytes : List UInt8) :
    (fetches space address bytes).length = bytes.length :=
  List.length_mapIdx

theorem mem_fetches (space : AddressSpace) (address : Nat → UInt32) (bytes : List UInt8) :
    ∀ e ∈ fetches space address bytes, ∃ at_ byte, e = .fetch space at_ byte := by
  intro e member
  obtain ⟨i, inside, rfl⟩ := List.mem_mapIdx.mp member
  exact ⟨_, _, rfl⟩

end Event

def Registers.advance (R : Registers) (count : Nat) : Registers :=
  { R with pc := R.pc + .ofNat count }

theorem Registers.advance_zero (R : Registers) : R.advance 0 = R := by
  simp [advance]

theorem Registers.advance_advance (R : Registers) (one two : Nat) :
    (R.advance one).advance two = R.advance (one + two) := by
  simp only [advance, UInt16.ofNat_add, UInt16.add_assoc]

def Registers.operandCalls (R : Registers) (bytes : List UInt8) : List Event :=
  Event.fetches .program (fun i => (R.advance i).programAddress) bytes

theorem Registers.operandCalls_nil (R : Registers) : R.operandCalls [] = [] := rfl

theorem Registers.operandCalls_cons (R : Registers) (byte : UInt8) (rest : List UInt8) :
    R.operandCalls (byte :: rest) =
      .fetch .program R.programAddress byte :: (R.advance 1).operandCalls rest := by
  simp only [operandCalls, Event.fetches_cons, advance_zero, advance_advance, Nat.add_comm 1]

theorem Registers.operandCalls_concat (R : Registers) (bytes : List UInt8) (last : UInt8) :
    R.operandCalls (bytes ++ [last]) =
      R.operandCalls bytes ++ [.fetch .program (R.advance bytes.length).programAddress last] :=
  List.mapIdx_concat

-- From a state a stretch makes bus calls and leaves a state, whatever the bus
-- answers and whoever the executor is. The answers are chosen by the bus, so
-- what is said of calls and state holds of all of them.
structure Yields (operation : Operation) (width : Width) (q : Program) (s : State)
    (post : List Event → State → Prop) : Prop where
  run : ∀ {β ε : Type} [Bus β] [Executor ε] (r : Run β ε), r.state = s →
    ∃ next calls, Leads operation width q r next ∧ next.executor = r.executor ∧
      next.events.toList = r.events.toList ++ calls ∧ next.cycles = r.cycles + calls.length ∧
      (∀ e ∈ calls, e.isBusCall) ∧ post calls next.state

namespace Yields

variable {operation : Operation} {width : Width} {rest : Program} {s : State}
  {post : List Event → State → Prop}

theorem nil (holds : post [] s) : Yields operation width [] s post := by
  constructor
  rintro β ε _ _ r rfl
  exact ⟨r, [], .nil, rfl, by simp, rfl, by simp, holds⟩

theorem internal {u : MicroOp} {after : State}
    (steps : ∀ {β ε : Type} [Bus β] [Executor ε] (r : Run β ε), r.state = s →
      r.step operation width u = (.next, { r with state := after }))
    (onward : Yields operation width rest after post) :
    Yields operation width (u :: rest) s post := by
  constructor
  intro β ε _ _ r same
  obtain ⟨next, calls, leads, executor, events, cycles, bus, holds⟩ :=
    onward.run { r with state := after } rfl
  exact ⟨next, calls, .cons (steps r same) leads, executor, events, cycles, bus, holds⟩

theorem skip {c : BusCycle} (marked : s.skipNext = true)
    (onward : Yields operation width rest { s with skipNext := false } post) :
    Yields operation width (.cycle c :: rest) s post := by
  refine internal ?_ onward
  rintro β ε _ _ r rfl
  rw [Run.step, if_pos marked]

theorem construct {c : Construction} {after : State} (applied : c.apply s = .ok after)
    (onward : Yields operation width rest after post) :
    Yields operation width (.construct c :: rest) s post := by
  refine internal ?_ onward
  rintro β ε _ _ r rfl
  rw [Run.step, applied]

theorem copy {c : Copy}
    (onward : Yields operation width rest (s.withDatapath (c.apply width s.toDatapath)) post) :
    Yields operation width (.copy c :: rest) s post := by
  refine internal ?_ onward
  rintro β ε _ _ r rfl
  rfl

theorem fetch {c : BusCycle} {address : UInt32} {absorb : UInt8 → Except Fault Datapath}
    {after : UInt8 → Datapath} (clear : s.skipNext = false)
    (asks : c.transfer s.toDatapath = .fetch address absorb)
    (takes : ∀ byte, absorb byte = .ok (after byte))
    (onward : ∀ byte, Yields operation width rest (s.withDatapath (after byte))
      fun calls s => post (.fetch c.space address byte :: calls) s) :
    Yields operation width (.cycle c :: rest) s post := by
  constructor
  rintro β ε _ _ r rfl
  let answer := Bus.fetch r.bus c.space address
  let middle : Run β ε := { r with
    state := r.state.withDatapath (after answer.1)
    bus := answer.2
    cycles := r.cycles + 1
    events := r.events.push (.fetch c.space address answer.1) }
  have stepped : r.step operation width (.cycle c) = (.next, middle) := by
    simp only [Run.step, clear, Bool.false_eq_true, if_false, Run.cycle, asks, takes,
      Run.withDatapath, middle, answer]
  obtain ⟨next, calls, leads, executor, events, cycles, bus, holds⟩ :=
    (onward answer.1).run middle rfl
  refine ⟨next, _, .cons stepped leads, executor, ?_, ?_, ?_, holds⟩
  · rw [events, Array.toList_push, List.append_assoc, List.singleton_append]
  · rw [cycles, List.length_cons, Nat.add_assoc, Nat.add_comm 1]
  · exact List.forall_mem_cons.mpr ⟨rfl, bus⟩

theorem store {c : BusCycle} {address : UInt32} {byte : UInt8} {after : Datapath}
    (clear : s.skipNext = false) (asks : c.transfer s.toDatapath = .store address byte after)
    (onward : Yields operation width rest (s.withDatapath after)
      fun calls s => post (.store c.space address byte :: calls) s) :
    Yields operation width (.cycle c :: rest) s post := by
  constructor
  rintro β ε _ _ r rfl
  let middle : Run β ε := { r with
    state := r.state.withDatapath after
    bus := Bus.store r.bus c.space address byte
    cycles := r.cycles + 1
    events := r.events.push (.store c.space address byte) }
  have stepped : r.step operation width (.cycle c) = (.next, middle) := by
    simp only [Run.step, clear, Bool.false_eq_true, if_false, Run.cycle, asks, Run.withDatapath,
      middle]
  obtain ⟨next, calls, leads, executor, events, cycles, bus, holds⟩ := onward.run middle rfl
  refine ⟨next, _, .cons stepped leads, executor, ?_, ?_, ?_, holds⟩
  · rw [events, Array.toList_push, List.append_assoc, List.singleton_append]
  · rw [cycles, List.length_cons, Nat.add_assoc, Nat.add_comm 1]
  · exact List.forall_mem_cons.mpr ⟨rfl, bus⟩

section

variable {R : Registers} {operand data : List UInt8} {address mask uncorrected : UInt32}
  {marked : Bool}

theorem fetchOperand (few : operand.length < 4)
    (onward : ∀ byte, Yields operation width rest
      (.holding { R with pc := R.pc + 1 } (operand ++ [byte]) data address mask uncorrected false)
      fun calls s => post (.fetch .program R.programAddress byte :: calls) s) :
    Yields operation width (.cycle .fetchOperand :: rest)
      (.holding R operand data address mask uncorrected false) post := by
  refine fetch rfl rfl (fun byte => ?_) onward
  rw [Datapath.pushOperand, Buffer.push_ofBytes few]
  rfl

theorem fetchLastOperand (few : operand.length < 4)
    (onward : ∀ byte, Yields operation width rest
      (.holding R (operand ++ [byte]) data address mask uncorrected false)
      fun calls s => post (.fetch .program R.programAddress byte :: calls) s) :
    Yields operation width (.cycle .fetchLastOperand :: rest)
      (.holding R operand data address mask uncorrected false) post := by
  refine fetch rfl rfl (fun byte => ?_) onward
  rw [Datapath.pushOperand, Buffer.push_ofBytes few]
  rfl

theorem idle {c : BusCycle} {at_ : UInt32} {d : Datapath}
    (asks : c.transfer d = .fetch at_ fun _ => .ok d)
    (onward : ∀ bytes : List UInt8, bytes.length = (if marked then 0 else 1) →
      Yields operation width rest ⟨d, false⟩
        fun calls s => post (bytes.map (.fetch c.space at_ ·) ++ calls) s) :
    Yields operation width (.cycle c :: rest) ⟨d, marked⟩ post := by
  cases marked with
  | true =>
    have none := onward [] rfl
    exact skip rfl none
  | false =>
    refine fetch rfl asks (fun _ => rfl) fun byte => ?_
    exact onward [byte] rfl

theorem fetchData (few : data.length < 4)
    (onward : ∀ byte, Yields operation width rest
      (.holding R operand (data ++ [byte]) address mask uncorrected false)
      fun calls s => post (.fetch .data address byte :: calls) s) :
    Yields operation width (.cycle .fetchData :: rest)
      (.holding R operand data address mask uncorrected false) post := by
  refine fetch rfl rfl (fun byte => ?_) onward
  rw [Datapath.pushData, Buffer.push_ofBytes few]
  rfl

theorem fetchDataUp {w : Wrap} {n : Nat} (few : data.length < 4) (inside : n < 0x1000000)
    (onward : ∀ byte, Yields operation width rest
      (.holding R operand (data ++ [byte]) (.ofNat (w.after n 1)) w.mask uncorrected false)
      fun calls s => post (.fetch .data (.ofNat n) byte :: calls) s) :
    Yields operation width (.cycle .fetchDataUp :: rest)
      (.holding R operand data (.ofNat n) w.mask uncorrected false) post := by
  refine fetch rfl rfl (fun byte => ?_) onward
  rw [Datapath.pushData, Buffer.push_ofBytes few]
  exact congrArg Except.ok (Datapath.stepUp_ofNat inside rfl rfl)

theorem operandBytes (n : Nat) (few : operand.length + n ≤ 4)
    (onward : ∀ bytes : List UInt8, bytes.length = n → Yields operation width rest
      (.holding (R.advance n) (operand ++ bytes) data address mask uncorrected false)
      fun calls s => post (R.operandCalls bytes ++
        calls) s) :
    Yields operation width (List.replicate n (.cycle .fetchOperand) ++ rest)
      (.holding R operand data address mask uncorrected false) post := by
  induction n generalizing R operand post with
  | zero =>
    have last := onward [] rfl
    rw [R.advance_zero, List.append_nil] at last
    exact last
  | succ n ih =>
    rw [List.replicate_succ, List.cons_append]
    refine fetchOperand (by omega) fun byte => ?_
    refine ih (R := R.advance 1) (by simp; omega) fun bytes length => ?_
    have later := onward (byte :: bytes) (by simp [length])
    simp only [R.operandCalls_cons, List.cons_append] at later
    simp only [R.advance_advance, Nat.add_comm 1, List.append_assoc, List.singleton_append]
    exact later

theorem lastOperandBytes (n : Nat) (few : operand.length + n < 4)
    (onward : ∀ bytes : List UInt8, bytes.length = n + 1 → Yields operation width rest
      (.holding (R.advance n) (operand ++ bytes) data address mask uncorrected false)
      fun calls s => post (R.operandCalls bytes ++ calls) s) :
    Yields operation width
      (List.replicate n (.cycle .fetchOperand) ++ .cycle .fetchLastOperand :: rest)
      (.holding R operand data address mask uncorrected false) post := by
  refine operandBytes n (by omega) fun bytes length => ?_
  refine fetchLastOperand (by simp; omega) fun byte => ?_
  have later := onward (bytes ++ [byte]) (by simp [length])
  simp only [R.operandCalls_concat, length, List.append_assoc, List.singleton_append] at later ⊢
  exact later

theorem pushHeld (data : List UInt8) {byte : UInt8} (clear : s.skipNext = false)
    (held : s.dataBuffer = .ofBytes (data ++ [byte])) (few : data.length < 4)
    (onward : Yields operation width rest
      { s with dataBuffer := .ofBytes data, registers.s := s.registers.s - 1 }
      fun calls after => post (.store .stack s.registers.s.toUInt32 byte :: calls) after) :
    Yields operation width (.cycle .push :: rest) s post := by
  refine store clear ?_ onward
  simp only [BusCycle.transfer, Datapath.storeHighest, held, Buffer.takeHighest_ofBytes few]
  rfl

theorem push (data : List UInt8) (byte : UInt8) (few : data.length < 4)
    (onward : Yields operation width rest
      (.holding { R with s := R.s - 1 } operand data address mask uncorrected false)
      fun calls s => post (.store .stack R.s.toUInt32 byte :: calls) s) :
    Yields operation width (.cycle .push :: rest)
      (.holding R operand (data ++ [byte]) address mask uncorrected false) post :=
  pushHeld data rfl rfl few onward

theorem dataBytes {w : Wrap} {A : Nat} (inside : A < 0x1000000) (n : Nat) (few : data.length + n < 4)
    (onward : ∀ bytes : List UInt8, bytes.length = n + 1 → Yields operation width rest
      (.holding R operand (data ++ bytes) (.ofNat (w.after A n)) w.mask uncorrected false)
      fun calls s => post (Event.fetches .data (fun i => .ofNat (w.after A i)) bytes ++ calls) s) :
    Yields operation width (List.replicate n (.cycle .fetchDataUp) ++ .cycle .fetchData :: rest)
      (.holding R operand data (.ofNat A) w.mask uncorrected false) post := by
  induction n generalizing A data post with
  | zero =>
    refine fetchData few fun byte => ?_
    have last := onward [byte] rfl
    simp only [Event.fetches_cons, w.after_zero] at last
    exact last
  | succ n ih =>
    rw [List.replicate_succ, List.cons_append]
    refine fetchDataUp (by omega) inside fun byte => ?_
    refine ih (w.after_lt inside 1) (by simp; omega) fun bytes length => ?_
    have later := onward (byte :: bytes) (by simp [length])
    simp only [Event.fetches_cons, w.after_zero, List.cons_append] at later
    simp only [w.after_after, Nat.add_comm 1, List.append_assoc, List.singleton_append]
    exact later

end

end Yields

end Microcode
