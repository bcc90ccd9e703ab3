import Microcode.Table.Build
import Microcode.Text.Hex
import Microcode.Text.Paragraph

namespace Microcode

structure Diagnostic where
  kind : String
  record : String
  code : String
  message : String
  help : String
  severity : String := "Error"

namespace Diagnostic

def report (d : Diagnostic) : List String :=
  ["Error: " ++ d.code, "", "  x " ++ d.message] ++ Paragraph.lines 80 "  help: " d.help ++ [""]

end Diagnostic

def opcodeText (opcode : UInt8) : String :=
  "$" ++ Hex.upper 2 opcode.toNat

def ConstructionError.diagnostic : ConstructionError → Diagnostic
  | .duplicateOpcode opcode =>
    { kind := "DuplicateOpcode"
      record := s!"DuplicateOpcode \x7b opcode: {opcode} \x7d"
      code := "w65816::duplicate_opcode"
      message := s!"Opcode {opcodeText opcode} was installed twice"
      help := "Every opcode can only be assigned to one addressing mode and operation." }
  | .outOfOrderOpcode opcode previous =>
    { kind := "OutOfOrderOpcode"
      record := s!"OutOfOrderOpcode \x7b opcode: {opcode}, previous: {previous} \x7d"
      code := "w65816::out_of_order_opcode"
      message :=
        s!"Opcode {opcodeText opcode} was installed after opcode {opcodeText previous}"
      help := "Install opcodes in strictly ascending order." }

def IllegalOpcode.diagnostic (e : IllegalOpcode) : Diagnostic where
  kind := "IllegalOpcode"
  record := s!"IllegalOpcode \x7b opcode: {e.opcode}, width: {e.width.name} \x7d"
  code := "w65816::illegal_opcode"
  message := s!"Opcode {opcodeText e.opcode} has no {e.width} program"
  help := "This opcode was never installed into the instruction table; " ++
    "the processor state was left untouched."

end Microcode
