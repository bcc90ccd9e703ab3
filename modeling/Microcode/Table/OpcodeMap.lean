import Microcode.Table.Build

namespace Microcode

-- The opcodes of the WDC 65816 whose addressing mode has a program, by row of
-- the opcode matrix. Immediate, implied, branch and stack opcodes have none, and
-- neither have BRK and COP: they stay illegal.
def opcodeMap : List Assignment :=
  [⟨0x01, .directIndexedIndirect, .ora⟩, ⟨0x03, .stackRelative, .ora⟩,
    ⟨0x04, .directModify, .tsb⟩, ⟨0x05, .direct, .ora⟩, ⟨0x06, .directModify, .asl⟩,
    ⟨0x07, .directIndirectLong, .ora⟩, ⟨0x0A, .accumulator, .asl⟩, ⟨0x0C, .absoluteModify, .tsb⟩,
    ⟨0x0D, .absolute, .ora⟩, ⟨0x0E, .absoluteModify, .asl⟩, ⟨0x0F, .absoluteLong, .ora⟩,
    ⟨0x11, .directIndirectIndexed, .ora⟩, ⟨0x12, .directIndirect, .ora⟩,
    ⟨0x13, .stackRelativeIndirectIndexed, .ora⟩, ⟨0x14, .directModify, .trb⟩,
    ⟨0x15, .directX, .ora⟩, ⟨0x16, .directXModify, .asl⟩,
    ⟨0x17, .directIndirectLongIndexed, .ora⟩, ⟨0x19, .absoluteY, .ora⟩,
    ⟨0x1A, .accumulator, .inc⟩, ⟨0x1C, .absoluteModify, .trb⟩, ⟨0x1D, .absoluteX, .ora⟩,
    ⟨0x1E, .absoluteXModify, .asl⟩, ⟨0x1F, .absoluteLongX, .ora⟩,
    ⟨0x20, .absoluteCall, .jsr⟩, ⟨0x21, .directIndexedIndirect, .and⟩,
    ⟨0x22, .absoluteLongCall, .jsl⟩, ⟨0x23, .stackRelative, .and⟩, ⟨0x24, .direct, .bit⟩,
    ⟨0x25, .direct, .and⟩, ⟨0x26, .directModify, .rol⟩, ⟨0x27, .directIndirectLong, .and⟩,
    ⟨0x2A, .accumulator, .rol⟩, ⟨0x2C, .absolute, .bit⟩, ⟨0x2D, .absolute, .and⟩,
    ⟨0x2E, .absoluteModify, .rol⟩, ⟨0x2F, .absoluteLong, .and⟩,
    ⟨0x31, .directIndirectIndexed, .and⟩, ⟨0x32, .directIndirect, .and⟩,
    ⟨0x33, .stackRelativeIndirectIndexed, .and⟩, ⟨0x34, .directX, .bit⟩, ⟨0x35, .directX, .and⟩,
    ⟨0x36, .directXModify, .rol⟩, ⟨0x37, .directIndirectLongIndexed, .and⟩,
    ⟨0x39, .absoluteY, .and⟩, ⟨0x3A, .accumulator, .dec⟩, ⟨0x3C, .absoluteX, .bit⟩,
    ⟨0x3D, .absoluteX, .and⟩, ⟨0x3E, .absoluteXModify, .rol⟩, ⟨0x3F, .absoluteLongX, .and⟩,
    ⟨0x41, .directIndexedIndirect, .eor⟩, ⟨0x43, .stackRelative, .eor⟩, ⟨0x44, .blockMove, .mvp⟩,
    ⟨0x45, .direct, .eor⟩, ⟨0x46, .directModify, .lsr⟩, ⟨0x47, .directIndirectLong, .eor⟩,
    ⟨0x4A, .accumulator, .lsr⟩, ⟨0x4C, .absoluteJump, .jmp⟩, ⟨0x4D, .absolute, .eor⟩,
    ⟨0x4E, .absoluteModify, .lsr⟩, ⟨0x4F, .absoluteLong, .eor⟩,
    ⟨0x51, .directIndirectIndexed, .eor⟩, ⟨0x52, .directIndirect, .eor⟩,
    ⟨0x53, .stackRelativeIndirectIndexed, .eor⟩, ⟨0x54, .blockMove, .mvn⟩, ⟨0x55, .directX, .eor⟩,
    ⟨0x56, .directXModify, .lsr⟩, ⟨0x57, .directIndirectLongIndexed, .eor⟩,
    ⟨0x59, .absoluteY, .eor⟩, ⟨0x5C, .absoluteLongJump, .jml⟩, ⟨0x5D, .absoluteX, .eor⟩,
    ⟨0x5E, .absoluteXModify, .lsr⟩, ⟨0x5F, .absoluteLongX, .eor⟩,
    ⟨0x61, .directIndexedIndirect, .adc⟩, ⟨0x63, .stackRelative, .adc⟩, ⟨0x64, .direct, .stz⟩,
    ⟨0x65, .direct, .adc⟩, ⟨0x66, .directModify, .ror⟩, ⟨0x67, .directIndirectLong, .adc⟩,
    ⟨0x6A, .accumulator, .ror⟩, ⟨0x6C, .absoluteIndirectJump, .jmpIndirect⟩,
    ⟨0x6D, .absolute, .adc⟩, ⟨0x6E, .absoluteModify, .ror⟩, ⟨0x6F, .absoluteLong, .adc⟩,
    ⟨0x71, .directIndirectIndexed, .adc⟩, ⟨0x72, .directIndirect, .adc⟩,
    ⟨0x73, .stackRelativeIndirectIndexed, .adc⟩, ⟨0x74, .directX, .stz⟩, ⟨0x75, .directX, .adc⟩,
    ⟨0x76, .directXModify, .ror⟩, ⟨0x77, .directIndirectLongIndexed, .adc⟩,
    ⟨0x79, .absoluteY, .adc⟩, ⟨0x7C, .absoluteIndexedIndirectJump, .jmpIndirect⟩,
    ⟨0x7D, .absoluteX, .adc⟩, ⟨0x7E, .absoluteXModify, .ror⟩, ⟨0x7F, .absoluteLongX, .adc⟩,
    ⟨0x81, .directIndexedIndirect, .sta⟩, ⟨0x83, .stackRelative, .sta⟩, ⟨0x84, .direct, .sty⟩,
    ⟨0x85, .direct, .sta⟩, ⟨0x86, .direct, .stx⟩, ⟨0x87, .directIndirectLong, .sta⟩,
    ⟨0x8C, .absolute, .sty⟩, ⟨0x8D, .absolute, .sta⟩, ⟨0x8E, .absolute, .stx⟩,
    ⟨0x8F, .absoluteLong, .sta⟩,
    ⟨0x91, .directIndirectIndexed, .sta⟩, ⟨0x92, .directIndirect, .sta⟩,
    ⟨0x93, .stackRelativeIndirectIndexed, .sta⟩, ⟨0x94, .directX, .sty⟩, ⟨0x95, .directX, .sta⟩,
    ⟨0x96, .directY, .stx⟩, ⟨0x97, .directIndirectLongIndexed, .sta⟩, ⟨0x99, .absoluteY, .sta⟩,
    ⟨0x9C, .absolute, .stz⟩, ⟨0x9D, .absoluteX, .sta⟩, ⟨0x9E, .absoluteX, .stz⟩,
    ⟨0x9F, .absoluteLongX, .sta⟩,
    ⟨0xA1, .directIndexedIndirect, .lda⟩, ⟨0xA3, .stackRelative, .lda⟩, ⟨0xA4, .direct, .ldy⟩,
    ⟨0xA5, .direct, .lda⟩, ⟨0xA6, .direct, .ldx⟩, ⟨0xA7, .directIndirectLong, .lda⟩,
    ⟨0xAC, .absolute, .ldy⟩, ⟨0xAD, .absolute, .lda⟩, ⟨0xAE, .absolute, .ldx⟩,
    ⟨0xAF, .absoluteLong, .lda⟩,
    ⟨0xB1, .directIndirectIndexed, .lda⟩, ⟨0xB2, .directIndirect, .lda⟩,
    ⟨0xB3, .stackRelativeIndirectIndexed, .lda⟩, ⟨0xB4, .directX, .ldy⟩, ⟨0xB5, .directX, .lda⟩,
    ⟨0xB6, .directY, .ldx⟩, ⟨0xB7, .directIndirectLongIndexed, .lda⟩, ⟨0xB9, .absoluteY, .lda⟩,
    ⟨0xBC, .absoluteX, .ldy⟩, ⟨0xBD, .absoluteX, .lda⟩, ⟨0xBE, .absoluteY, .ldx⟩,
    ⟨0xBF, .absoluteLongX, .lda⟩,
    ⟨0xC1, .directIndexedIndirect, .cmp⟩, ⟨0xC3, .stackRelative, .cmp⟩, ⟨0xC4, .direct, .cpy⟩,
    ⟨0xC5, .direct, .cmp⟩, ⟨0xC6, .directModify, .dec⟩, ⟨0xC7, .directIndirectLong, .cmp⟩,
    ⟨0xCC, .absolute, .cpy⟩, ⟨0xCD, .absolute, .cmp⟩, ⟨0xCE, .absoluteModify, .dec⟩,
    ⟨0xCF, .absoluteLong, .cmp⟩,
    ⟨0xD1, .directIndirectIndexed, .cmp⟩, ⟨0xD2, .directIndirect, .cmp⟩,
    ⟨0xD3, .stackRelativeIndirectIndexed, .cmp⟩, ⟨0xD5, .directX, .cmp⟩,
    ⟨0xD6, .directXModify, .dec⟩, ⟨0xD7, .directIndirectLongIndexed, .cmp⟩,
    ⟨0xD9, .absoluteY, .cmp⟩, ⟨0xDC, .absoluteIndirectLongJump, .jml⟩, ⟨0xDD, .absoluteX, .cmp⟩,
    ⟨0xDE, .absoluteXModify, .dec⟩, ⟨0xDF, .absoluteLongX, .cmp⟩,
    ⟨0xE1, .directIndexedIndirect, .sbc⟩, ⟨0xE3, .stackRelative, .sbc⟩, ⟨0xE4, .direct, .cpx⟩,
    ⟨0xE5, .direct, .sbc⟩, ⟨0xE6, .directModify, .inc⟩, ⟨0xE7, .directIndirectLong, .sbc⟩,
    ⟨0xEC, .absolute, .cpx⟩, ⟨0xED, .absolute, .sbc⟩, ⟨0xEE, .absoluteModify, .inc⟩,
    ⟨0xEF, .absoluteLong, .sbc⟩,
    ⟨0xF1, .directIndirectIndexed, .sbc⟩, ⟨0xF2, .directIndirect, .sbc⟩,
    ⟨0xF3, .stackRelativeIndirectIndexed, .sbc⟩, ⟨0xF5, .directX, .sbc⟩,
    ⟨0xF6, .directXModify, .inc⟩, ⟨0xF7, .directIndirectLongIndexed, .sbc⟩,
    ⟨0xF9, .absoluteY, .sbc⟩, ⟨0xFC, .absoluteIndexedIndirectCall, .jmpIndirect⟩,
    ⟨0xFD, .absoluteX, .sbc⟩, ⟨0xFE, .absoluteXModify, .inc⟩, ⟨0xFF, .absoluteLongX, .sbc⟩]

theorem opcodeMap_ascending : opcodeMap.Pairwise (·.opcode < ·.opcode) := by
  decide +kernel

def standardTable : Table :=
  (opcodeMap.foldl Builder.accept {}).table

theorem build_opcodeMap : Table.build opcodeMap = .ok standardTable :=
  Table.build_of_ascending opcodeMap_ascending

end Microcode
