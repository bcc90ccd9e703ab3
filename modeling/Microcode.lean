import Microcode.Instruction.Width
import Microcode.Instruction.Operation
import Microcode.Instruction.AddressingMode
import Microcode.Instruction.Order
import Microcode.Program.MicroOp
import Microcode.Program.Tail
import Microcode.Program.OfMode
import Microcode.Processor.Fault
import Microcode.Processor.Buffer
import Microcode.Processor.Bytes
import Microcode.Processor.Registers
import Microcode.Processor.State
import Microcode.Processor.Construct
import Microcode.Processor.Transfer
import Microcode.Execution.Host
import Microcode.Execution.Step
import Microcode.Execution.Dispatch
import Microcode.Table.Basic
import Microcode.Table.Build
import Microcode.Table.Statistics
import Microcode.Table.OpcodeMap
import Microcode.Table.Diagnostic
import Microcode.Text.Hex
import Microcode.Text.Layout
import Microcode.Text.Paragraph
import Microcode.Text.Lines
import Microcode.Text.Terminal
import Microcode.Bench.Memory
import Microcode.Bench.Action
import Microcode.Bench.Session
import Microcode.Inspector.OpcodeNumeral
import Microcode.Inspector.Arguments
import Microcode.Inspector.Report
import Microcode.Main
import Microcode.Proofs.Table.Construction
import Microcode.Proofs.Table.Contents
import Microcode.Proofs.Execution.Interpreter
import Microcode.Proofs.Execution.Passes
import Microcode.Proofs.Execution.Account
import Microcode.Proofs.Processor.Address
import Microcode.Proofs.Execution.Stretch
import Microcode.Proofs.Mode.Operand
import Microcode.Proofs.Mode.Head
import Microcode.Proofs.Execution.Marker
import Microcode.Proofs.Execution.Dispatches
import Microcode.Proofs.Mode.ReadOperand
import Microcode.Proofs.Execution.Cycles
import Microcode.Proofs.Execution.Settling
import Microcode.Proofs.Mode.Prelude
import Microcode.Proofs.Mode.Control
import Microcode.Proofs.Mode.CycleCount
import Microcode.Bench.Reference
import Microcode.Proofs.Mode.Result
import Microcode.Proofs.Mode.WriteResult
import Microcode.Proofs.Mode.ModifyOperand
import Microcode.Proofs.Execution.FlatMemory
import Microcode.Proofs.Mode.BlockMove
import Microcode.Proofs.Execution.Series
import Microcode.Proofs.Mode.Repetition
import Microcode.Proofs.Execution.Elision
import Microcode.Proofs.Execution.InFull
import Microcode.Proofs.Execution.Filling
import Microcode.Proofs.Mode.Overfilling
import Microcode.Proofs.Execution.Sessions
import Microcode.Proofs.Table.Installation
import Microcode.Proofs.Processor.Agreement
import Microcode.Proofs.Execution.Transients
import Microcode.Proofs.Mode.Targets
import Microcode.Proofs.Mode.ReturnAddress
import Microcode.Proofs.Table.Sharing
import Microcode.Proofs.Mode.Termination
import Microcode.Proofs.Mode.MovePass
import Microcode.Proofs.Execution.Frame
import Microcode.Proofs.Mode.OperandStream
import Microcode.Proofs.Processor.Deque
import Microcode.Proofs.Mode.InPlace
import Microcode.Proofs.Mode.RegisterFrame
import Microcode.Proofs.Mode.DataPhase
import Microcode.Proofs.Mode.DummyRead
import Microcode.Proofs.Table.Tally
import Microcode.Proofs.Inspector.Numerals
import Microcode.Proofs.Processor.Stepping
