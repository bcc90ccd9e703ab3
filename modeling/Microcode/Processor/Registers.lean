import Microcode.Instruction.Width
import Microcode.Program.MicroOp

namespace Microcode

def bankMask : UInt32 := 0x00ffff
def addressMask : UInt32 := 0xffffff

def inBank (bank : UInt8) (offset : UInt16) : UInt32 :=
  bank.toUInt32 <<< 16 ||| offset.toUInt32

theorem toNat_inBank (bank : UInt8) (offset : UInt16) :
    (inBank bank offset).toNat = bank.toNat * 0x10000 + offset.toNat := by
  have low := offset.toNat_lt
  have high := bank.toNat_lt
  have apart := Nat.shiftLeft_add_eq_or_of_lt (show offset.toNat < 2 ^ 16 by omega) bank.toNat
  simp only [inBank, UInt32.toNat_or, UInt32.toNat_shiftLeft, UInt8.toNat_toUInt32,
    UInt16.toNat_toUInt32]
  rw [Nat.shiftLeft_eq] at *
  simp only [UInt32.toNat_ofNat, Nat.reducePow, Nat.reduceMod] at *
  rw [Nat.mod_eq_of_lt (by omega), ← apart]

-- Native-mode registers, as far as programs see them. `indexWidth` follows the
-- `x` flag and only decides whether a dummy read may go.
structure Registers where
  a : UInt16 := 0
  x : UInt16 := 0
  y : UInt16 := 0
  s : UInt16 := 0
  direct : UInt16 := 0
  dataBank : UInt8 := 0
  programBank : UInt8 := 0
  pc : UInt16 := 0
  indexWidth : Width := .eight
  deriving DecidableEq, Inhabited

namespace Registers

def programAddress (r : Registers) : UInt32 :=
  inBank r.programBank r.pc

def index (r : Registers) : Index → UInt16
  | .x => r.x
  | .y => r.y

end Registers

end Microcode
