import Microcode.Execution.Host
import Microcode.Processor.Construct
import Microcode.Processor.Transfer

namespace Microcode

inductive Flow where
  | next
  | restart
  | finish
  | fault (cause : Fault)
  deriving DecidableEq

namespace Run

variable {β ε : Type} [Bus β] [Executor ε]

def withDatapath (r : Run β ε) (d : Datapath) : Run β ε :=
  { r with state := r.state.withDatapath d }

def cycle (c : BusCycle) (r : Run β ε) : Flow × Run β ε :=
  match c.transfer r.state.toDatapath with
  | .fetch address absorb =>
    let (value, bus) := Bus.fetch r.bus c.space address
    let r := { r with
      bus, cycles := r.cycles + 1, events := r.events.push (.fetch c.space address value) }
    match absorb value with
    | .ok after => (.next, r.withDatapath after)
    | .error cause => (.fault cause, r)
  | .store address byte after =>
    let r := { r with
      bus := Bus.store r.bus c.space address byte, cycles := r.cycles + 1
      events := r.events.push (.store c.space address byte) }
    (.next, r.withDatapath after)
  | .refused cause after => (.fault cause, r.withDatapath after)

-- Another pass starts from empty buffers. PC is the executor's business: a block
-- move sets it back to its operands itself.
def perform (operation : Operation) (width : Width) (r : Run β ε) : Flow × Run β ε :=
  let performed := Executor.perform r.executor operation width r.state
  let r := { r with
    executor := performed.executor
    events := r.events.push (.perform operation width r.state)
    state := r.state.withDatapath performed.datapath }
  if performed.completion = .again ∧ operation.isBlockMove then
    (.restart, r.withDatapath r.state.clearBuffers)
  else (.next, r)

def step (operation : Operation) (width : Width) (u : MicroOp) (r : Run β ε) : Flow × Run β ε :=
  match u with
  | .cycle c =>
    if r.state.skipNext then (.next, { r with state.skipNext := false }) else r.cycle c
  | .construct c =>
    match c.apply r.state with
    | .ok after => (.next, { r with state := after })
    | .error cause => (.fault cause, r)
  | .copy c => (.next, r.withDatapath (c.apply width r.state.toDatapath))
  | .perform => r.perform operation width
  | .endOfProgram => (.finish, r)

end Run

end Microcode
