import Microcode.Processor.Fault
import Microcode.Text.Hex

namespace Microcode

-- Up to four bytes, the lowest first in `value`; `size` of them are held. The
-- fields are open, so a caller may set a size beyond four or leave bits above
-- the bytes held.
@[ext] structure Buffer where
  value : UInt32 := 0
  size : UInt8 := 0
  deriving DecidableEq, Inhabited

namespace Buffer

def empty : Buffer := {}

def isEmpty (b : Buffer) : Bool :=
  b.size == 0

def ofValue (value : UInt32) (size : UInt8) : Buffer :=
  if size < 4 then ⟨value &&& ((1 <<< (8 * size.toUInt32)) - 1), size⟩ else ⟨value, size⟩

-- Puts a byte above those held. An empty buffer forgets what its value was.
def push (b : Buffer) (byte : UInt8) : Except Fault Buffer :=
  if b.size < 4 then
    let held := if b.size = 0 then 0 else b.value
    .ok ⟨held ||| byte.toUInt32 <<< (8 * b.size.toUInt32), b.size + 1⟩
  else .error .bufferFull

def lowest (b : Buffer) : UInt8 :=
  b.value.toUInt8

def word (b : Buffer) : UInt16 :=
  b.value.toUInt16

def fewer (b : Buffer) : UInt8 :=
  if b.size = 0 then 0 else b.size - 1

def takeLowest (b : Buffer) : UInt8 × Buffer :=
  (b.lowest, ⟨b.value >>> 8, b.fewer⟩)

-- The size goes down first, so it is down also when the byte is out of reach.
def takeHighest (b : Buffer) : Except Fault UInt8 × Buffer :=
  if b.fewer < 4 then
    (.ok (b.value >>> (8 * b.fewer.toUInt32)).toUInt8, ofValue b.value b.fewer)
  else (.error .byteOutOfReach, ⟨b.value, b.fewer⟩)

instance : ToString Buffer where
  toString b := Hex.upper (2 * b.size.toNat) b.value.toNat

theorem toNat_fewer (b : Buffer) : b.fewer.toNat = b.size.toNat - 1 := by
  unfold fewer
  split
  · rename_i none
    rw [none]
    rfl
  · rename_i held
    have positive : b.size.toNat ≠ 0 := fun zero => held (UInt8.toNat_inj.mp zero)
    have bound := b.size.toNat_lt
    rw [UInt8.toNat_sub]
    change (2 ^ 8 - 1 + b.size.toNat) % 2 ^ 8 = _
    omega

theorem push_fault_iff (b : Buffer) (byte : UInt8) :
    b.push byte = .error .bufferFull ↔ 4 ≤ b.size.toNat := by
  have four : b.size < 4 ↔ b.size.toNat < 4 := UInt8.lt_iff_toNat_lt
  unfold push
  split <;> simp_all

theorem takeHighest_fault_iff (b : Buffer) :
    b.takeHighest.1 = .error .byteOutOfReach ↔ 5 ≤ b.size.toNat := by
  have four : b.fewer < 4 ↔ b.size.toNat - 1 < 4 := by
    rw [UInt8.lt_iff_toNat_lt, toNat_fewer]
    rfl
  unfold takeHighest
  split <;> simp_all <;> omega

end Buffer

end Microcode
