import Microcode.Proofs.Execution.Marker

namespace Microcode

def Transfer.Ensures (post : Datapath → Prop) : Transfer → Prop
  | .fetch _ absorb => ∀ byte after, absorb byte = .ok after → post after
  | .store _ _ after => post after
  | .refused _ _ => True

theorem Datapath.storeHighest_ensures {d : Datapath} {address : UInt32}
    {settle : Datapath → Datapath} {post : Datapath → Prop}
    (settles : ∀ rest, post (settle { d with dataBuffer := rest })) :
    (d.storeHighest address settle).Ensures post := by
  unfold storeHighest
  split
  · exact settles _
  · trivial

namespace BusCycle

def fetchesOperand : BusCycle → Bool
  | .fetchOperand | .fetchLastOperand => true
  | _ => false

def moveRegisters : BusCycle → Registers → Registers
  | .fetchOperand, R => R.advance 1
  | .push, R => { R with s := R.s - 1 }
  | _, R => R

structure Frame (c : BusCycle) (d after : Datapath) : Prop where
  registers : after.registers = c.moveRegisters d.registers
  operand : c.fetchesOperand = false → after.instructionBuffer = d.instructionBuffer

theorem transfer_frame (c : BusCycle) (d : Datapath) : (c.transfer d).Ensures (c.Frame d) := by
  cases c with
  | fetchOperand =>
    intro byte after taken
    obtain ⟨middle, pushed, rfl⟩ := ok_of_map taken
    obtain ⟨held, -, rfl⟩ := ok_of_map pushed
    exact ⟨rfl, nofun⟩
  | fetchLastOperand =>
    intro byte after taken
    obtain ⟨held, -, rfl⟩ := ok_of_map taken
    exact ⟨rfl, nofun⟩
  | fetchData | fetchSource =>
    intro byte after taken
    obtain ⟨held, -, rfl⟩ := ok_of_map taken
    exact ⟨rfl, fun _ => rfl⟩
  | fetchDataUp =>
    intro byte after taken
    obtain ⟨middle, pushed, rfl⟩ := ok_of_map taken
    obtain ⟨held, -, rfl⟩ := ok_of_map pushed
    exact ⟨rfl, fun _ => rfl⟩
  | idleProgram | idleData | idleUncorrected | idleStack | idleDestination =>
    intro byte after taken
    cases taken
    exact ⟨rfl, fun _ => rfl⟩
  | storeData | storeDataUp | rewriteData | storeDestination => exact ⟨rfl, fun _ => rfl⟩
  | storeDataDown | push => exact Datapath.storeHighest_ensures fun rest => ⟨rfl, fun _ => rfl⟩

theorem transfer_operand {c : BusCycle} (operand : c.fetchesOperand = true) (d : Datapath) :
    c.space = .program ∧ ∃ absorb, c.transfer d = .fetch d.registers.programAddress absorb ∧
      ∀ byte after, absorb byte = .ok after →
        d.instructionBuffer.push byte = .ok after.instructionBuffer := by
  cases c with
  | fetchOperand =>
    refine ⟨rfl, _, rfl, fun byte after taken => ?_⟩
    obtain ⟨middle, pushed, rfl⟩ := ok_of_map taken
    obtain ⟨held, found, rfl⟩ := ok_of_map pushed
    exact found
  | fetchLastOperand =>
    refine ⟨rfl, _, rfl, fun byte after taken => ?_⟩
    obtain ⟨held, found, rfl⟩ := ok_of_map taken
    exact found
  | _ => cases operand

theorem isElidable_of_fetchesOperand {c : BusCycle} (operand : c.fetchesOperand = true) :
    c.isElidable = false := by
  cases c with
  | fetchOperand | fetchLastOperand => rfl
  | _ => cases operand

theorem moveRegisters_of_isElidable {c : BusCycle} (elidable : c.isElidable = true)
    (R : Registers) : c.moveRegisters R = R := by
  cases c with
  | idleProgram | idleUncorrected => rfl
  | _ => cases elidable

end BusCycle

theorem Construction.apply_frame {c : Construction} {s after : State}
    (applied : c.apply s = .ok after) :
    after.registers = s.registers ∧ after.instructionBuffer = s.instructionBuffer := by
  cases c with
  | absoluteIndexedIndirect | stackRelativeIndirectIndexed =>
    obtain ⟨sum, -, rfl⟩ := ok_of_map applied
    exact ⟨rfl, rfl⟩
  | _ =>
    cases applied
    exact ⟨rfl, rfl⟩

theorem Copy.apply_frame (c : Copy) (width : Width) (d : Datapath) :
    (c.apply width d).registers = { d.registers with a := (c.apply width d).registers.a } ∧
      (c.apply width d).instructionBuffer = d.instructionBuffer := by
  cases c with
  | _ => exact ⟨rfl, rfl⟩

namespace MicroOp

def fetchesOperand : MicroOp → Bool
  | .cycle c => c.fetchesOperand
  | _ => false

def moveRegisters (width : Width) (u : MicroOp) (d : Datapath) : Registers :=
  match u with
  | .cycle c => c.moveRegisters d.registers
  | .copy c => (c.apply width d).registers
  | _ => d.registers

theorem pc_moveRegisters (width : Width) (u : MicroOp) (d : Datapath) :
    (u.moveRegisters width d).pc = d.registers.pc + if u = .cycle .fetchOperand then 1 else 0 := by
  cases u with
  | cycle c => cases c <;> simp [moveRegisters, BusCycle.moveRegisters, Registers.advance]
  | copy c => cases c <;> simp [moveRegisters, Copy.apply]
  | _ => simp [moveRegisters]

theorem programBank_moveRegisters (width : Width) (u : MicroOp) (d : Datapath) :
    (u.moveRegisters width d).programBank = d.registers.programBank := by
  cases u with
  | cycle c => cases c <;> rfl
  | copy c => cases c <;> rfl
  | _ => rfl

end MicroOp

section

variable {β ε : Type} [Bus β] {c : BusCycle} {r next : Run β ε}

theorem Run.cycle_ensures {post : Datapath → Prop}
    (ensures : (c.transfer r.state.toDatapath).Ensures post) (went : r.cycle c = (.next, next)) :
    post next.state.toDatapath := by
  unfold cycle at went
  split at went
  · rename_i address absorb asks
    rw [asks] at ensures
    dsimp only at went
    split at went
    · rename_i after taken
      cases went
      exact ensures _ _ taken
    · cases went
  · rename_i address byte after asks
    rw [asks] at ensures
    cases went
    exact ensures
  · cases went

theorem Run.cycle_of_fetchesOperand (operand : c.fetchesOperand = true)
    (went : r.cycle c = (.next, next)) :
    ∃ byte, r.state.instructionBuffer.push byte = .ok next.state.instructionBuffer ∧
      next.events = r.events.push (.fetch .program r.state.registers.programAddress byte) := by
  obtain ⟨space, absorb, asks, takes⟩ := BusCycle.transfer_operand operand r.state.toDatapath
  rw [cycle, asks] at went
  dsimp only at went
  split at went
  · rename_i after taken
    cases went
    exact ⟨_, takes _ _ taken, space ▸ rfl⟩
  · cases went

variable [Executor ε] {operation : Operation} {width : Width} {u : MicroOp}

theorem Run.step_registers (own : u ≠ .perform)
    (timely : r.state.skipNext = true → ∃ c, u = .cycle c ∧ c.isElidable = true)
    (stepped : r.step operation width u = (.next, next)) :
    next.state.registers = u.moveRegisters width r.state.toDatapath := by
  cases u with
  | cycle c =>
    rw [step] at stepped
    split at stepped
    · rename_i set_
      obtain ⟨k, same, elidable⟩ := timely set_
      cases same
      cases stepped
      exact (BusCycle.moveRegisters_of_isElidable elidable r.state.registers).symm
    · exact (Run.cycle_ensures (c.transfer_frame r.state.toDatapath) stepped).registers
  | construct c =>
    rw [step] at stepped
    split at stepped
    · rename_i after applied
      cases stepped
      exact (Construction.apply_frame applied).1
    · cases stepped
  | copy c =>
    cases stepped
    rfl
  | perform => exact absurd rfl own
  | endOfProgram => cases stepped

theorem Run.step_instructionBuffer (own : u ≠ .perform) (other : u.fetchesOperand = false)
    (stepped : r.step operation width u = (.next, next)) :
    next.state.instructionBuffer = r.state.instructionBuffer := by
  cases u with
  | cycle c =>
    rw [step] at stepped
    split at stepped
    · cases stepped
      rfl
    · exact (Run.cycle_ensures (c.transfer_frame r.state.toDatapath) stepped).operand other
  | construct c =>
    rw [step] at stepped
    split at stepped
    · rename_i after applied
      cases stepped
      exact (Construction.apply_frame applied).2
    · cases stepped
  | copy c =>
    cases stepped
    exact (c.apply_frame width r.state.toDatapath).2
  | perform => exact absurd rfl own
  | endOfProgram => cases stepped

end

end Microcode
