import Std.Data.HashMap.Basic
import Microcode.Execution.Host

namespace Microcode.Bench

-- One memory for all address spaces, addressed by 32 bits. Bytes that were never
-- written follow a pattern, so that neighbours, pages and banks tell apart, or
-- are zero where there is no pattern.
structure Memory where
  fill : Option Nat := none
  written : Std.HashMap UInt32 UInt8 := ∅

namespace Memory

def pattern (fill : Option Nat) (address : UInt32) : UInt8 :=
  match fill with
  | none => 0
  | some fill =>
    let n := address.toNat
    UInt8.ofNat (n + 3 * (n / 0x100) + 5 * (n / 0x10000) + fill)

def read (m : Memory) (address : UInt32) : UInt8 :=
  m.written.getD address (pattern m.fill address)

def write (m : Memory) (address : UInt32) (byte : UInt8) : Memory :=
  { m with written := m.written.insert address byte }

def writeAll (m : Memory) (address : UInt32) : List UInt8 → Memory
  | [] => m
  | byte :: rest => (m.write address byte).writeAll (address + 1) rest

instance : Bus Memory where
  fetch m _ address := (m.read address, m)
  store m _ address byte := m.write address byte

end Memory

end Microcode.Bench
