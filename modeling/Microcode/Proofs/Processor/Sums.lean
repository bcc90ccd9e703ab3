import Microcode.Proofs.Execution.Faults
import Microcode.Proofs.Processor.Bounds

namespace Microcode

namespace Construction

-- The sum that an address is made of, before it is cut to its bank or to 24 bits.
def sum (c : Construction) (s : State) : Nat :=
  let r := s.registers
  let operand := s.instructionBuffer.value.toNat
  let pointer := s.dataBuffer.value.toNat
  let bank := r.dataBank.toNat * 0x10000
  match c with
  | .absolute => bank + operand % 0x10000
  | .absoluteBankZero => operand % 0x10000
  | .absoluteLong => operand
  | .absoluteLongX | .absoluteIndexedIndirect => operand + r.x.toNat
  | .absoluteIndexed index _ => bank + operand % 0x10000 + (r.index index).toNat
  | .direct => r.direct.toNat + operand % 0x100
  | .directIndexed index => r.direct.toNat + operand % 0x100 + (r.index index).toNat
  | .directIndexedIndirect => r.direct.toNat + operand % 0x100 + r.x.toNat
  | .directIndirect => bank + pointer % 0x10000
  | .directIndirectIndexed _ | .stackRelativeIndirectIndexed =>
    bank + pointer % 0x10000 + r.y.toNat
  | .directIndirectLong => pointer
  | .directIndirectLongIndexed => pointer + r.y.toNat
  | .stackRelative => r.s.toNat + operand % 0x100

end Construction

theorem toNat_addIndex {base sum : UInt32} {index : UInt16}
    (reached : addIndex base index = .ok sum) : sum.toNat = base.toNat + index.toNat := by
  unfold addIndex at reached
  split at reached
  · rename_i low
    cases reached
    rw [UInt32.toNat_add, UInt16.toNat_toUInt32]
    omega
  · cases reached

theorem and_mask_eq {mask : UInt32} (either : mask = bankMask ∨ mask = addressMask) {n k : Nat}
    (same : n % 0x1000000 = k % 0x1000000 ∨ mask = bankMask ∧ n % 0x10000 = k % 0x10000) :
    n &&& mask.toNat = k &&& mask.toNat := by
  have bank : ∀ n, n &&& bankMask.toNat = n % 2 ^ 16 := fun n => Nat.and_two_pow_sub_one_eq_mod n 16
  have long : ∀ n, n &&& addressMask.toNat = n % 2 ^ 24 := fun n =>
    Nat.and_two_pow_sub_one_eq_mod n 24
  rcases either with rfl | rfl
  · rw [bank, bank]
    omega
  · rw [long, long]
    rcases same with same | ⟨other, -⟩
    · exact same
    · cases other

def Datapath.AimsAt (d : Datapath) (sum : Nat) : Prop :=
  (d.dataAddress &&& d.incrementMask).toNat = sum &&& d.incrementMask.toNat

theorem State.aim_aimsAt (s : State) {address mask : UInt32}
    (either : mask = bankMask ∨ mask = addressMask) {sum : Nat}
    (same : address.toNat % 0x1000000 = sum % 0x1000000 ∨
      mask = bankMask ∧ address.toNat % 0x10000 = sum % 0x10000) :
    (s.aim address mask).toDatapath.AimsAt sum := by
  have cut : (address &&& addressMask) &&& mask = address &&& mask := by
    rcases either with rfl | rfl <;> rw [UInt32.and_assoc] <;> rfl
  change ((address &&& addressMask) &&& mask).toNat = sum &&& mask.toNat
  rw [cut, UInt32.toNat_and]
  exact and_mask_eq either same

theorem State.aimIndexed_aimsAt (s : State) (base : UInt32) (index : Index) (elide : Bool) :
    (s.aimIndexed base index elide).toDatapath.AimsAt
      (base.toNat + (s.registers.index index).toNat) := by
  have low := (s.registers.index index).toNat_lt
  refine State.aim_aimsAt s (.inr rfl) (.inl ?_)
  rw [toNat_and_mask (k := 24) rfl, UInt32.toNat_add, UInt16.toNat_toUInt32]
  omega

namespace Construction

theorem apply_aimsAt {c : Construction} {s after : State} (applied : c.apply s = .ok after) :
    after.toDatapath.AimsAt (c.sum s) := by
  cases c with
  | absolute =>
    cases applied
    refine s.aim_aimsAt (.inr rfl) (.inl ?_)
    simp only [sum, toNat_inBank, UInt32.toNat_toUInt16]
  | absoluteBankZero =>
    cases applied
    refine s.aim_aimsAt (.inl rfl) (.inl ?_)
    simp only [sum, UInt16.toNat_toUInt32, UInt32.toNat_toUInt16]
  | absoluteLong =>
    cases applied
    exact s.aim_aimsAt (.inr rfl) (.inl rfl)
  | absoluteLongX =>
    cases applied
    refine s.aim_aimsAt (.inr rfl) (.inl ?_)
    simp only [sum, UInt32.toNat_add, UInt16.toNat_toUInt32]
    omega
  | absoluteIndexed index elide =>
    cases applied
    have there := s.aimIndexed_aimsAt (inBank s.registers.dataBank s.instructionBuffer.value.toUInt16) index
      elide
    rw [toNat_inBank, UInt32.toNat_toUInt16] at there
    exact there
  | absoluteIndexedIndirect =>
    obtain ⟨total, reached, rfl⟩ := ok_of_map applied
    refine s.aim_aimsAt (.inl rfl) (.inr ⟨rfl, ?_⟩)
    simp only [sum, toNat_inBank, UInt32.toNat_toUInt16, toNat_addIndex reached]
    omega
  | direct | directIndexed | directIndexedIndirect | stackRelative =>
    cases applied
    refine s.aim_aimsAt (.inl rfl) (.inr ⟨rfl, ?_⟩)
    simp only [sum, Buffer.lowest, UInt16.toNat_toUInt32, UInt16.toNat_add, UInt8.toNat_toUInt16,
      UInt32.toNat_toUInt8, UInt16.toNat_zero]
    omega
  | directIndirect =>
    cases applied
    refine s.dropPointer.aim_aimsAt (.inr rfl) (.inl ?_)
    simp only [sum, toNat_inBank, UInt32.toNat_toUInt16]
  | directIndirectIndexed elide =>
    cases applied
    have there := s.dropPointer.aimIndexed_aimsAt (inBank s.registers.dataBank s.dataBuffer.value.toUInt16) .y
      elide
    rw [toNat_inBank, UInt32.toNat_toUInt16] at there
    exact there
  | directIndirectLong =>
    cases applied
    exact s.dropPointer.aim_aimsAt (.inr rfl) (.inl rfl)
  | directIndirectLongIndexed =>
    cases applied
    refine s.dropPointer.aim_aimsAt (.inr rfl) (.inl ?_)
    simp only [sum, UInt32.toNat_add, UInt16.toNat_toUInt32]
    omega
  | stackRelativeIndirectIndexed =>
    obtain ⟨total, reached, rfl⟩ := ok_of_map applied
    refine s.dropPointer.aim_aimsAt (.inr rfl) (.inl ?_)
    simp only [sum, toNat_addIndex reached, toNat_inBank, UInt32.toNat_toUInt16]

end Construction

end Microcode
