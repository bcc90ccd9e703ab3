import Microcode.Execution.Step
import Microcode.Table.Basic

namespace Microcode

-- How a dispatch ended. A block move may go on for ever, so a dispatch is given
-- a limit on its steps; one that met it is `unfinished` and tells the position
-- in the store that comes next.
inductive Verdict where
  | completed
  | illegal (error : IllegalOpcode)
  | faulted (cause : Fault)
  | unfinished (position : Nat)
  deriving DecidableEq

namespace Table

variable {β ε : Type} [Bus β] [Executor ε]

def walk (t : Table) (instruction : Instruction) (width : Width) :
    Nat → Nat → Run β ε → Verdict × Run β ε
  | 0, position, r => (.unfinished position, r)
  | limit + 1, position, r =>
    match t.store[position]? with
    | none => (.faulted (.positionOutOfReach position t.store.size), r)
    | some u =>
      match r.step instruction.operation width u with
      | (.next, r) => walk t instruction width limit (position + 1) r
      | (.restart, r) => walk t instruction width limit instruction.offset r
      | (.finish, r) => (.completed, r)
      | (.fault cause, r) => (.faulted cause, r)

-- The opcode has been fetched, and PC stands behind it. The cycles of the run
-- leave out that fetch.
def dispatch (t : Table) (limit : Nat) (opcode : UInt8) (width : Width) (m : Machine β ε) :
    Verdict × Run β ε :=
  match t.instruction? opcode width with
  | none => (.illegal ⟨opcode, width⟩, { m with })
  | some instruction =>
    t.walk instruction width limit instruction.offset
      { m with state := m.state.beginInstruction }

def stepsFor (t : Table) (passes : Nat) : Nat :=
  passes * (t.store.size + 1)

end Table

end Microcode
