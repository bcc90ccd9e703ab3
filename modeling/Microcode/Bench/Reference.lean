import Microcode.Execution.Host

namespace Microcode.Bench

def stride : Operation → UInt16
  | .mvp => 0xffff
  | _ => 1

-- What a block move does behind each byte. A counts the bytes yet to come, less
-- one; while there are some, PC goes back to the operands for another pass.
def nextByte (operation : Operation) (d : Datapath) : Completion × Datapath :=
  let r := d.registers
  let moved : Registers := { r with
    dataBank := d.instructionBuffer.lowest
    x := r.x + stride operation
    y := r.y + stride operation
    a := r.a - 1 }
  if moved.a = 0xffff then (.done, { d with registers := moved })
  else (.again, { d with registers := { moved with pc := moved.pc - 2 } })

-- An executor that gives operations just enough meaning to tell their operands,
-- results and passes apart.
structure Reference
  deriving DecidableEq

namespace Reference

def merge (width : Width) (register value : UInt16) : UInt16 :=
  (register &&& ~~~width.mask) ||| (value &&& width.mask)

def leave (d : Datapath) (width : Width) (value : UInt16) : Datapath :=
  { d with dataBuffer := .ofValue (value &&& width.mask).toUInt32 width.bytes }

def effect (operation : Operation) (width : Width) (d : Datapath) : Datapath :=
  let r := d.registers
  let operand := d.dataBuffer.word &&& width.mask
  match operation with
  | .lda => { d with registers.a := merge width r.a operand }
  | .ldx => { d with registers.x := operand }
  | .ldy => { d with registers.y := operand }
  | .ora => { d with registers.a := r.a ||| operand }
  | .and => { d with registers.a := merge width r.a (r.a &&& operand) }
  | .eor => { d with registers.a := r.a ^^^ operand }
  | .sta => leave d width r.a
  | .stx => leave d width r.x
  | .sty => leave d width r.y
  | .stz => leave d width 0
  | .asl => leave d width (operand <<< 1)
  | .lsr => leave d width (operand >>> 1)
  | .inc => leave d width (operand + 1)
  | .dec => leave d width (operand - 1)
  | .rol | .ror | .trb | .tsb => leave d width operand
  | .jmp => { d with registers.pc := d.instructionBuffer.word }
  | .jmpIndirect => { d with registers.pc := d.dataBuffer.word }
  | .jml =>
    { d with registers := { r with
        pc := d.dataBuffer.word
        programBank := (d.dataBuffer.value >>> 16).toUInt8 } }
  | .jsr =>
    { d with
      dataBuffer := .ofValue r.pc.toUInt32 2
      registers.pc := d.instructionBuffer.word }
  | .jsl =>
    { d with
      dataBuffer := .ofValue r.pc.toUInt32 2
      registers := { r with
        pc := d.instructionBuffer.word
        programBank := (d.instructionBuffer.value >>> 16).toUInt8 } }
  | .adc | .bit | .cmp | .cpx | .cpy | .sbc => d
  | .mvn | .mvp => (nextByte operation d).2

instance : Executor Reference where
  perform e operation width s :=
    { completion := if operation.isBlockMove then (nextByte operation s.toDatapath).1 else .done
      datapath := effect operation width s.toDatapath
      executor := e }

end Reference

end Microcode.Bench
