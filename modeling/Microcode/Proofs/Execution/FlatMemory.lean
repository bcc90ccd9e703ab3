import Microcode.Execution.Host

namespace Microcode

structure FlatMemory where
  read : UInt32 → UInt8

namespace FlatMemory

def write (m : FlatMemory) (address : UInt32) (byte : UInt8) : FlatMemory where
  read other := if other = address then byte else m.read other

instance : Bus FlatMemory where
  fetch m _ address := (m.read address, m)
  store m _ address byte := m.write address byte

variable {m : FlatMemory} {address other : UInt32} {byte : UInt8}

theorem read_write_same : (m.write address byte).read address = byte :=
  if_pos rfl

theorem read_write_other (apart : other ≠ address) :
    (m.write address byte).read other = m.read other :=
  if_neg apart

theorem fetch_eq (m : FlatMemory) (space : AddressSpace) (address : UInt32) :
    Bus.fetch m space address = (m.read address, m) := rfl

theorem store_eq (m : FlatMemory) (space : AddressSpace) (address : UInt32) (byte : UInt8) :
    Bus.store m space address byte = m.write address byte := rfl

-- One byte after the other, so that a byte just written may be the next one read.
def copyBytes (m : FlatMemory) (source target : Nat → UInt32) : Nat → FlatMemory
  | 0 => m
  | count + 1 =>
    let copied := m.copyBytes source target count
    copied.write (target count) (copied.read (source count))

variable {source target : Nat → UInt32} {count : Nat}

theorem read_copyBytes_other (apart : ∀ i < count, address ≠ target i) :
    (m.copyBytes source target count).read address = m.read address := by
  induction count with
  | zero => rfl
  | succ count ih =>
    rw [copyBytes, read_write_other (apart count (Nat.lt_succ_self count))]
    exact ih fun i earlier => apart i (Nat.lt_succ_of_lt earlier)

theorem read_copyBytes_target (distinct : ∀ i < count, ∀ j < i, target i ≠ target j)
    (unwritten : ∀ i < count, ∀ j < i, source i ≠ target j) :
    ∀ i < count, (m.copyBytes source target count).read (target i) = m.read (source i) := by
  induction count with
  | zero => intro i none; cases none
  | succ count ih =>
    intro i earlier
    rw [copyBytes]
    rcases Nat.lt_succ_iff_lt_or_eq.mp earlier with before | rfl
    · rw [read_write_other (distinct count (Nat.lt_succ_self count) i before).symm]
      exact ih (fun i less => distinct i (Nat.lt_succ_of_lt less))
        (fun i less => unwritten i (Nat.lt_succ_of_lt less)) i before
    · rw [read_write_same]
      exact read_copyBytes_other (unwritten i earlier)

end FlatMemory

end Microcode
