import Microcode.Execution.Step

namespace Microcode

-- Faults that a step can have. A position out of reach is none of them: only the
-- walk through a store can meet it.
def Fault.InStep : Fault → Prop
  | .positionOutOfReach _ _ => False
  | _ => True

theorem Buffer.push_fault {b : Buffer} {byte : UInt8} {cause : Fault}
    (failed : b.push byte = .error cause) : cause.InStep := by
  unfold push at failed
  split at failed
  · cases failed
  · cases failed
    trivial

theorem Buffer.takeHighest_fault {b : Buffer} {cause : Fault}
    (failed : b.takeHighest.1 = .error cause) : cause.InStep := by
  unfold takeHighest at failed
  split at failed
  · cases failed
  · cases failed
    trivial

theorem addIndex_fault {base : UInt32} {index : UInt16} {cause : Fault}
    (failed : addIndex base index = .error cause) : cause.InStep := by
  unfold addIndex at failed
  split at failed
  · cases failed
  · cases failed
    trivial

theorem error_of_map {α γ : Type} {result : Except Fault α} {f : α → γ} {cause : Fault}
    (failed : result.map f = .error cause) : result = .error cause := by
  cases result with
  | ok a => cases failed
  | error found =>
    cases failed
    rfl

theorem ok_of_map {α γ : Type} {result : Except Fault α} {f : α → γ} {mapped : γ}
    (succeeded : result.map f = .ok mapped) : ∃ a, result = .ok a ∧ mapped = f a := by
  cases result with
  | ok a =>
    cases succeeded
    exact ⟨a, rfl, rfl⟩
  | error cause => cases succeeded

namespace Datapath

theorem pushOperand_fault {d : Datapath} {byte : UInt8} {cause : Fault}
    (failed : d.pushOperand byte = .error cause) : cause.InStep :=
  Buffer.push_fault (error_of_map failed)

theorem pushData_fault {d : Datapath} {byte : UInt8} {cause : Fault}
    (failed : d.pushData byte = .error cause) : cause.InStep :=
  Buffer.push_fault (error_of_map failed)

theorem storeHighest_refused {d after : Datapath} {address : UInt32} {settle : Datapath → Datapath}
    {cause : Fault} (refused : d.storeHighest address settle = .refused cause after) :
    cause.InStep := by
  unfold storeHighest at refused
  split at refused
  · cases refused
  · rename_i found _ taken
    cases refused
    exact Buffer.takeHighest_fault (congrArg Prod.fst taken)

end Datapath

namespace BusCycle

theorem absorb_fault {c : BusCycle} {d : Datapath} {address : UInt32}
    {absorb : UInt8 → Except Fault Datapath} {value : UInt8} {cause : Fault}
    (asks : c.transfer d = .fetch address absorb) (failed : absorb value = .error cause) :
    cause.InStep := by
  cases c with
  | fetchOperand =>
    cases asks
    exact Datapath.pushOperand_fault (error_of_map failed)
  | fetchLastOperand =>
    cases asks
    exact Datapath.pushOperand_fault failed
  | fetchDataUp =>
    cases asks
    exact Datapath.pushData_fault (error_of_map failed)
  | fetchData | fetchSource =>
    cases asks
    exact Datapath.pushData_fault failed
  | idleProgram | idleData | idleUncorrected | idleStack | idleDestination =>
    cases asks
    cases failed
  | storeData | storeDataUp | rewriteData | storeDestination => cases asks
  | storeDataDown | push =>
    simp only [transfer, Datapath.storeHighest] at asks
    split at asks <;> cases asks

theorem refused_fault {c : BusCycle} {d after : Datapath} {cause : Fault}
    (refused : c.transfer d = .refused cause after) : cause.InStep := by
  cases c with
  | storeDataDown | push => exact Datapath.storeHighest_refused refused
  | _ => cases refused

end BusCycle

theorem Construction.apply_fault {c : Construction} {s : State} {cause : Fault}
    (failed : c.apply s = .error cause) : cause.InStep := by
  cases c with
  | absoluteIndexedIndirect | stackRelativeIndirectIndexed =>
    exact addIndex_fault (error_of_map failed)
  | _ => cases failed

namespace Run

variable {β ε : Type} [Bus β]

theorem cycle_flow (c : BusCycle) (r : Run β ε) :
    (r.cycle c).1 = .next ∨ ∃ cause, (r.cycle c).1 = .fault cause ∧ cause.InStep := by
  unfold cycle
  split
  · rename_i address absorb asks
    dsimp only
    split
    · exact .inl rfl
    · rename_i cause failed
      exact .inr ⟨cause, rfl, BusCycle.absorb_fault asks failed⟩
  · exact .inl rfl
  · rename_i cause after refused
    exact .inr ⟨cause, rfl, BusCycle.refused_fault refused⟩

end Run

end Microcode
