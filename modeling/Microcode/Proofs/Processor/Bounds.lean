import Microcode.Proofs.Processor.Address

namespace Microcode

theorem exists_littleEndian {length n : Nat} (fits : n < 256 ^ length) :
    ∃ bytes : List UInt8, bytes.length = length ∧ littleEndian bytes = n :=
  ⟨lowBytes length n, length_lowBytes length n,
    (littleEndian_lowBytes length n).trans (Nat.mod_eq_of_lt fits)⟩

namespace Buffer

structure Within (b : Buffer) (room : Nat) : Prop where
  size : b.size.toNat ≤ room
  value : b.value.toNat < 256 ^ b.size.toNat

theorem within_iff {b : Buffer} {room : Nat} (four : room ≤ 4) :
    b.Within room ↔ ∃ bytes, bytes.length ≤ room ∧ b = ofBytes bytes := by
  constructor
  · intro within
    obtain ⟨bytes, long, value⟩ := exists_littleEndian within.value
    refine ⟨bytes, long ▸ within.size, Buffer.ext ?_ ?_⟩
    · rw [ofBytes, value, UInt32.ofNat_toNat]
    · rw [ofBytes, long, UInt8.ofNat_toNat]
  · rintro ⟨bytes, few, rfl⟩
    have size := toNat_size_ofBytes (Nat.le_trans few four)
    refine ⟨size ▸ few, ?_⟩
    rw [size, toNat_value_ofBytes (Nat.le_trans few four)]
    exact littleEndian_lt bytes

theorem within_empty (room : Nat) : empty.Within room where
  size := Nat.zero_le room
  value := Nat.one_pos

theorem within_ofValue (value : UInt32) {size : UInt8} (few : size.toNat < 4) :
    (ofValue value size).Within size.toNat := by
  have positive : 0 < 256 ^ size.toNat := Nat.pow_pos (by decide)
  refine ⟨by rw [size_ofValue], ?_⟩
  rw [ofValue_toNat few, size_ofValue]
  exact Nat.mod_lt _ positive

namespace Within

variable {b : Buffer} {room : Nat}

theorem mono (within : b.Within room) {more : Nat} (le : room ≤ more) : b.Within more :=
  ⟨Nat.le_trans within.size le, within.value⟩

theorem value_lt (within : b.Within room) : b.value.toNat < 256 ^ room :=
  Nat.lt_of_lt_of_le within.value (Nat.pow_le_pow_right (by decide) within.size)

theorem push (within : b.Within room) (free : room < 4) (byte : UInt8) :
    ∃ after, b.push byte = .ok after ∧ after.Within (room + 1) := by
  obtain ⟨bytes, few, rfl⟩ := (within_iff (Nat.le_of_lt free)).mp within
  have longer : (bytes ++ [byte]).length ≤ room + 1 := by simp [few]
  exact ⟨_, push_ofBytes (Nat.lt_of_le_of_lt few free) byte,
    (within_iff free).mpr ⟨_, longer, rfl⟩⟩

theorem takeLowest (within : b.Within room) (four : room ≤ 4) : b.takeLowest.2.Within room := by
  obtain ⟨bytes, few, rfl⟩ := (within_iff four).mp within
  cases bytes with
  | nil =>
    rw [ofBytes_nil, takeLowest_empty]
    exact within_empty room
  | cons byte rest =>
    have fewer : rest.length < room := few
    rw [takeLowest_ofBytes (by omega)]
    exact (within_iff four).mpr ⟨rest, Nat.le_of_lt fewer, rfl⟩

theorem takeHighest (within : b.Within room) (four : room ≤ 4) :
    ∃ byte rest, b.takeHighest = (.ok byte, rest) ∧ rest.Within room := by
  obtain ⟨bytes, few, rfl⟩ := (within_iff four).mp within
  rcases List.eq_nil_or_concat' bytes with rfl | ⟨rest, byte, rfl⟩
  · exact ⟨0, empty, takeHighest_empty, within_empty room⟩
  · rw [List.length_append, List.length_singleton] at few
    exact ⟨byte, ofBytes rest, takeHighest_ofBytes (by omega),
      (within_iff four).mpr ⟨rest, by omega, rfl⟩⟩

end Within

end Buffer

structure Datapath.Aimed (d : Datapath) : Prop where
  address : d.dataAddress.toNat < 0x1000000
  mask : d.incrementMask = 0 ∨ d.incrementMask = bankMask ∨ d.incrementMask = addressMask
  uncorrected : d.uncorrected.toNat < 0x1000000

namespace Datapath.Aimed

variable {d : Datapath}

theorem withDataBuffer (aimed : d.Aimed) (b : Buffer) :
    ({ d with dataBuffer := b } : Datapath).Aimed :=
  ⟨aimed.address, aimed.mask, aimed.uncorrected⟩

theorem exists_mask (aimed : d.Aimed) : ∃ k ≤ 24, d.incrementMask.toNat = 2 ^ k - 1 := by
  rcases aimed.mask with mask | mask | mask <;> rw [mask]
  · exact ⟨0, by decide, rfl⟩
  · exact ⟨16, by decide, rfl⟩
  · exact ⟨24, by decide, rfl⟩

theorem splice_lt {k address : Nat} (low : k ≤ 24) (inside : address < 0x1000000) (counted : Nat) :
    2 ^ k * (address / 2 ^ k) + counted % 2 ^ k < 0x1000000 := by
  obtain ⟨rounds, whole⟩ : 2 ^ k ∣ 0x1000000 := Nat.pow_dvd_pow 2 low
  have below : counted % 2 ^ k < 2 ^ k := Nat.mod_lt _ (Nat.two_pow_pos k)
  have bank : address / 2 ^ k < rounds := Nat.div_lt_of_lt_mul (whole ▸ inside)
  calc 2 ^ k * (address / 2 ^ k) + counted % 2 ^ k
      < 2 ^ k * (address / 2 ^ k) + 2 ^ k := Nat.add_lt_add_left below _
    _ = 2 ^ k * (address / 2 ^ k + 1) := (Nat.mul_succ ..).symm
    _ ≤ 2 ^ k * rounds := Nat.mul_le_mul_left _ bank
    _ = 0x1000000 := whole.symm

theorem stepUp (aimed : d.Aimed) : d.stepUp.Aimed := by
  obtain ⟨k, low, mask⟩ := aimed.exists_mask
  refine ⟨?_, aimed.mask, aimed.uncorrected⟩
  rw [toNat_stepUp (by omega) mask]
  exact splice_lt low aimed.address _

theorem stepDown (aimed : d.Aimed) : d.stepDown.Aimed := by
  obtain ⟨k, low, mask⟩ := aimed.exists_mask
  refine ⟨?_, aimed.mask, aimed.uncorrected⟩
  rw [toNat_stepDown (by omega) mask]
  exact splice_lt low aimed.address _

theorem setDataAddress (aimed : d.Aimed) (address : UInt32) {mask : UInt32}
    (either : mask = bankMask ∨ mask = addressMask) : (d.setDataAddress address mask).Aimed := by
  refine ⟨?_, .inr either, aimed.uncorrected⟩
  rw [Datapath.setDataAddress, toNat_and_mask (k := 24) rfl]
  exact Nat.mod_lt _ (by decide)

end Datapath.Aimed

-- Where an access may go: a program access stays in the program bank, and a stack
-- access goes where the stack pointer stands.
structure Registers.Reaches (R : Registers) (space : AddressSpace) (address : UInt32) : Prop where
  inside : address.toNat < 0x1000000
  program : space = .program → address.toNat / 0x10000 = R.programBank.toNat
  stack : space = .stack → address.toNat = R.s.toNat

end Microcode
