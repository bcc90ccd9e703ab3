import Microcode.Instruction.Width

namespace Microcode

inductive Access where
  | read
  | write
  deriving DecidableEq, Ord

namespace Access

def all : List Access := [.read, .write]

def name : Access → String
  | .read => "Read"
  | .write => "Write"

def ofName? (name : String) : Option Access :=
  all.find? (·.name == name)

end Access

-- What a perform step executes. Programs are compiled without knowing what an
-- operation computes; only its access direction matters to them. The two jumps
-- within a bank differ in where they find their target: `jmp` in the
-- instruction buffer, `jmpIndirect` in the data buffer.
inductive Operation where
  | adc | and | bit | cmp | cpx | cpy | eor | ora | sbc
  | lda | ldx | ldy
  | jmp | jmpIndirect | jsr | jml | jsl
  | asl | dec | inc | lsr | rol | ror | trb | tsb
  | mvn | mvp
  | sta | stx | sty | stz
  deriving DecidableEq, Ord

namespace Operation

def all : List Operation :=
  [.adc, .and, .bit, .cmp, .cpx, .cpy, .eor, .ora, .sbc, .lda, .ldx, .ldy, .jmp, .jmpIndirect,
    .jsr, .jml, .jsl, .asl, .dec, .inc, .lsr, .rol, .ror, .trb, .tsb, .mvn, .mvp, .sta, .stx,
    .sty, .stz]

def name : Operation → String
  | .adc => "Adc"
  | .and => "And"
  | .bit => "Bit"
  | .cmp => "Cmp"
  | .cpx => "Cpx"
  | .cpy => "Cpy"
  | .eor => "Eor"
  | .ora => "Ora"
  | .sbc => "Sbc"
  | .lda => "Lda"
  | .ldx => "Ldx"
  | .ldy => "Ldy"
  | .jmp => "Jmp"
  | .jmpIndirect => "JmpIndirect"
  | .jsr => "Jsr"
  | .jml => "Jml"
  | .jsl => "Jsl"
  | .asl => "Asl"
  | .dec => "Dec"
  | .inc => "Inc"
  | .lsr => "Lsr"
  | .rol => "Rol"
  | .ror => "Ror"
  | .trb => "Trb"
  | .tsb => "Tsb"
  | .mvn => "Mvn"
  | .mvp => "Mvp"
  | .sta => "Sta"
  | .stx => "Stx"
  | .sty => "Sty"
  | .stz => "Stz"

def ofName? (name : String) : Option Operation :=
  all.find? (·.name == name)

-- Only stores produce the byte that goes to memory. Jumps, modifications in
-- place and block moves count as reads, but no program of theirs asks.
def access : Operation → Access
  | .sta | .stx | .sty | .stz => .write
  | _ => .read

def usesIndexWidth : Operation → Bool
  | .cpx | .cpy | .ldx | .ldy | .stx | .sty => true
  | _ => false

def isBlockMove : Operation → Bool
  | .mvn | .mvp => true
  | _ => false

def mnemonic : Operation → String
  | .jmpIndirect => "JMP"
  | o => o.name.map Char.toUpper

instance : ToString Operation where
  toString := mnemonic

theorem mem_all (o : Operation) : o ∈ all := by
  cases o <;> decide

theorem ofName?_name (o : Operation) : ofName? o.name = some o := by
  cases o <;> decide

theorem access_eq_write_iff (o : Operation) : o.access = .write ↔ o ∈ [.sta, .stx, .sty, .stz] := by
  cases o <;> decide

end Operation

end Microcode
