import Microcode.Bench.Action
import Microcode.Bench.Memory
import Microcode.Execution.Dispatch

namespace Microcode.Bench

inductive Cue where
  | act (action : Action)
  | complete (completion : Completion)

abbrev Script := List Cue

-- How far a script has come. It does not stop at a fault, but only the first
-- one is reported.
structure Performance where
  state : State
  completion : Completion := .done
  fault : Option Fault := none

def Performance.follow (p : Performance) : Cue → Performance
  | .act action =>
    let (answer, state) := action.run p.state
    { p with state, fault := p.fault <|> answer.fault? }
  | .complete completion => { p with completion }

structure Player where
  scripts : List Script := []
  fault : Option Fault := none

instance : Executor Player where
  perform player _ _ state :=
    let played := (player.scripts.headD []).foldl Performance.follow { state }
    { completion := played.completion
      datapath := played.state.toDatapath
      executor :=
        { scripts := player.scripts.tail, fault := player.fault <|> played.fault } }

inductive Step where
  | write (address : UInt32) (bytes : List UInt8)
  | dispatch (opcode : UInt8) (width : Width) (scripts : List Script)
  | act (action : Action)

inductive Ending where
  | cycles (count : Nat)
  | illegal (error : IllegalOpcode)
  | fault (cause : Fault)
  | unfinished

inductive Entry where
  | written
  | dispatched (ending : Ending) (events : List Event) (state : State)
  | acted (answer : Answer) (state : State)

def Entry.isLast : Entry → Bool
  | .dispatched (.fault _) _ _ => true
  | .dispatched .unfinished _ _ => true
  | .acted (.fault _) _ => true
  | _ => false

structure Session where
  table : Table
  state : State
  memory : Memory

namespace Session

-- A fault in a script comes before the one it may bring about later.
def ending (verdict : Verdict) (r : Run Memory Player) : Ending :=
  match r.executor.fault, verdict with
  | some cause, _ => .fault cause
  | none, .completed => .cycles r.cycles
  | none, .illegal error => .illegal error
  | none, .faulted cause => .fault cause
  | none, .unfinished _ => .unfinished

-- Each script is one pass, and a pass without a script is the last one.
def passes (scripts : List Script) : Nat :=
  scripts.length + 1

def dispatch (s : Session) (opcode : UInt8) (width : Width) (scripts : List Script) :
    Entry × Session :=
  let (verdict, r) := s.table.dispatch (s.table.stepsFor (passes scripts)) opcode width
    { state := s.state, bus := s.memory, executor := ({ scripts } : Player) }
  (.dispatched (ending verdict r) r.events.toList r.state,
    { s with state := r.state, memory := r.bus })

def step (s : Session) : Step → Entry × Session
  | .write address bytes => (.written, { s with memory := s.memory.writeAll address bytes })
  | .dispatch opcode width scripts => s.dispatch opcode width scripts
  | .act action =>
    let (answer, state) := action.run s.state
    (.acted answer state, { s with state })

def run (s : Session) : List Step → List Entry
  | [] => []
  | step :: rest =>
    let (entry, next) := s.step step
    if entry.isLast then [entry] else entry :: next.run rest

end Session

end Microcode.Bench
