namespace Microcode

-- Where an operation finds its operand. A mode is also the identity under which
-- programs are shared, so modes whose programs happen to coincide stay apart.
-- `Modify` marks the modes of operations that read, change and write back,
-- `Jump` and `Call` those of control transfers.
inductive AddressingMode where
  | absolute
  | absoluteModify
  | absoluteJump
  | absoluteCall
  | absoluteIndexedIndirectJump
  | absoluteIndexedIndirectCall
  | absoluteIndirectLongJump
  | absoluteIndirectJump
  | absoluteLong
  | absoluteLongJump
  | absoluteLongCall
  | absoluteLongX
  | absoluteX
  | absoluteXModify
  | absoluteY
  | accumulator
  | blockMove
  | direct
  | directModify
  | directX
  | directXModify
  | directY
  | directIndexedIndirect
  | directIndirect
  | directIndirectIndexed
  | directIndirectLong
  | directIndirectLongIndexed
  | stackRelative
  | stackRelativeIndirectIndexed
  deriving DecidableEq, Ord

namespace AddressingMode

def all : List AddressingMode :=
  [.absolute, .absoluteModify, .absoluteJump, .absoluteCall, .absoluteIndexedIndirectJump,
    .absoluteIndexedIndirectCall, .absoluteIndirectLongJump, .absoluteIndirectJump, .absoluteLong,
    .absoluteLongJump, .absoluteLongCall, .absoluteLongX, .absoluteX, .absoluteXModify, .absoluteY,
    .accumulator, .blockMove, .direct, .directModify, .directX, .directXModify, .directY,
    .directIndexedIndirect, .directIndirect, .directIndirectIndexed, .directIndirectLong,
    .directIndirectLongIndexed, .stackRelative, .stackRelativeIndirectIndexed]

def name : AddressingMode → String
  | .absolute => "Absolute"
  | .absoluteModify => "AbsoluteRmw"
  | .absoluteJump => "AbsoluteJmp"
  | .absoluteCall => "AbsoluteJsr"
  | .absoluteIndexedIndirectJump => "AbsoluteIndexedIndirectJmp"
  | .absoluteIndexedIndirectCall => "AbsoluteIndexedIndirectJsr"
  | .absoluteIndirectLongJump => "AbsoluteIndirectJml"
  | .absoluteIndirectJump => "AbsoluteIndirectJmp"
  | .absoluteLong => "AbsoluteLong"
  | .absoluteLongJump => "AbsoluteLongJmp"
  | .absoluteLongCall => "AbsoluteLongJsl"
  | .absoluteLongX => "AbsoluteLongX"
  | .absoluteX => "AbsoluteX"
  | .absoluteXModify => "AbsoluteXRmw"
  | .absoluteY => "AbsoluteY"
  | .accumulator => "Accumulator"
  | .blockMove => "BlockMove"
  | .direct => "Direct"
  | .directModify => "DirectRmw"
  | .directX => "DirectX"
  | .directXModify => "DirectXRmw"
  | .directY => "DirectY"
  | .directIndexedIndirect => "DirectIndexedIndirect"
  | .directIndirect => "DirectIndirect"
  | .directIndirectIndexed => "DirectIndirectIndexed"
  | .directIndirectLong => "DirectIndirectLong"
  | .directIndirectLongIndexed => "DirectIndirectLongIndexed"
  | .stackRelative => "StackRelative"
  | .stackRelativeIndirectIndexed => "StackRelativeIndirectIndexed"

def ofName? (name : String) : Option AddressingMode :=
  all.find? (·.name == name)

-- The operand as assembly writes it: `a` absolute, `al` absolute long, `d`
-- direct page, parentheses a 16-bit and brackets a 24-bit pointer.
def operandForm : AddressingMode → String
  | .absolute | .absoluteModify | .absoluteJump | .absoluteCall => "a"
  | .absoluteIndexedIndirectJump | .absoluteIndexedIndirectCall => "(a,x)"
  | .absoluteIndirectLongJump => "[a]"
  | .absoluteIndirectJump => "(a)"
  | .absoluteLong | .absoluteLongJump | .absoluteLongCall => "al"
  | .absoluteLongX => "al,x"
  | .absoluteX | .absoluteXModify => "a,x"
  | .absoluteY => "a,y"
  | .accumulator => "A"
  | .blockMove => "xyc"
  | .direct | .directModify => "d"
  | .directX | .directXModify => "d,x"
  | .directY => "d,y"
  | .directIndexedIndirect => "(d,x)"
  | .directIndirect => "(d)"
  | .directIndirectIndexed => "(d),y"
  | .directIndirectLong => "[d]"
  | .directIndirectLongIndexed => "[d],y"
  | .stackRelative => "d,s"
  | .stackRelativeIndirectIndexed => "(d,s),y"

instance : ToString AddressingMode where
  toString := operandForm

theorem mem_all (m : AddressingMode) : m ∈ all := by
  cases m <;> decide

theorem ofName?_name (m : AddressingMode) : ofName? m.name = some m := by
  cases m <;> decide

end AddressingMode

end Microcode
