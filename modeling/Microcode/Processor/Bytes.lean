import Mathlib
import Microcode.Processor.Buffer

namespace Microcode

def littleEndian : List UInt8 → Nat
  | [] => 0
  | byte :: rest => byte.toNat + 256 * littleEndian rest

theorem littleEndian_append (low high : List UInt8) :
    littleEndian (low ++ high) = littleEndian low + 256 ^ low.length * littleEndian high := by
  induction low with
  | nil => simp [littleEndian]
  | cons byte rest ih =>
    simp only [List.cons_append, littleEndian, ih, List.length_cons, Nat.pow_succ, Nat.mul_add]
    rw [Nat.mul_comm (256 ^ rest.length) 256, ← Nat.mul_assoc, Nat.add_assoc]

theorem littleEndian_lt (bytes : List UInt8) : littleEndian bytes < 256 ^ bytes.length := by
  induction bytes with
  | nil => simp [littleEndian]
  | cons byte rest ih =>
    have bound := byte.toNat_lt
    simp only [littleEndian, List.length_cons, Nat.pow_succ]
    omega

def lowBytes : Nat → Nat → List UInt8
  | 0, _ => []
  | count + 1, n => .ofNat n :: lowBytes count (n / 256)

theorem length_lowBytes (count n : Nat) : (lowBytes count n).length = count := by
  induction count generalizing n with
  | zero => rfl
  | succ count ih => rw [lowBytes, List.length_cons, ih]

theorem littleEndian_lowBytes (count n : Nat) :
    littleEndian (lowBytes count n) = n % 256 ^ count := by
  induction count generalizing n with
  | zero => rw [lowBytes, littleEndian, Nat.pow_zero, Nat.mod_one]
  | succ count ih =>
    have power : 256 ^ (count + 1) = 256 * 256 ^ count := Nat.pow_succ'
    rw [lowBytes, littleEndian, ih, UInt8.toNat_ofNat', power, Nat.mod_mul]

theorem lowBytes_littleEndian (bytes : List UInt8) :
    lowBytes bytes.length (littleEndian bytes) = bytes := by
  induction bytes with
  | nil => rfl
  | cons byte rest ih =>
    have bound := byte.toNat_lt
    have low : UInt8.ofNat (byte.toNat + 256 * littleEndian rest) = byte := by
      apply UInt8.toNat_inj.mp
      rw [UInt8.toNat_ofNat']
      omega
    have high : (byte.toNat + 256 * littleEndian rest) / 256 = littleEndian rest := by omega
    rw [List.length_cons, littleEndian, lowBytes, low, high, ih]

namespace Buffer

def ofBytes (bytes : List UInt8) : Buffer :=
  ⟨.ofNat (littleEndian bytes), .ofNat bytes.length⟩

theorem ofBytes_nil : ofBytes [] = empty := rfl

theorem toNat_size_ofBytes {bytes : List UInt8} (few : bytes.length ≤ 4) :
    (ofBytes bytes).size.toNat = bytes.length := by
  simp only [ofBytes, UInt8.toNat_ofNat']
  omega

theorem toNat_value_ofBytes {bytes : List UInt8} (few : bytes.length ≤ 4) :
    (ofBytes bytes).value.toNat = littleEndian bytes := by
  have bound := littleEndian_lt bytes
  have most : 256 ^ bytes.length ≤ 256 ^ 4 := Nat.pow_le_pow_right (by omega) few
  simp only [ofBytes, UInt32.toNat_ofNat']
  omega

theorem size_ofBytes_lt_iff {bytes : List UInt8} (few : bytes.length ≤ 4) :
    (ofBytes bytes).size < 4 ↔ bytes.length < 4 := by
  rw [UInt8.lt_iff_toNat_lt, toNat_size_ofBytes few]
  rfl

-- Bits of the new byte lie above all bits held, so that joining them is a sum.
theorem push_ofBytes {bytes : List UInt8} (few : bytes.length < 4) (byte : UInt8) :
    (ofBytes bytes).push byte = .ok (ofBytes (bytes ++ [byte])) := by
  have size := toNat_size_ofBytes (Nat.le_of_lt few)
  have value := toNat_value_ofBytes (Nat.le_of_lt few)
  have bound := littleEndian_lt bytes
  have room := byte.toNat_lt
  rw [push, if_pos ((size_ofBytes_lt_iff (Nat.le_of_lt few)).mpr few)]
  have held : (if (ofBytes bytes).size = 0 then 0 else (ofBytes bytes).value) =
      (ofBytes bytes).value := by
    split
    · rename_i none
      have zero : bytes.length = 0 := by rw [← size, none]; rfl
      rw [List.length_eq_zero_iff.mp zero]
      rfl
    · rfl
  simp only [held]
  refine congrArg Except.ok (Buffer.ext ?_ ?_)
  · apply UInt32.toNat_inj.mp
    have amount : (8 * (ofBytes bytes).size.toUInt32).toNat % 32 = 8 * bytes.length := by
      simp only [UInt32.toNat_mul, UInt8.toNat_toUInt32, size]
      change 8 * bytes.length % 2 ^ 32 % 32 = _
      omega
    have power : 2 ^ (8 * bytes.length) = 256 ^ bytes.length := by
      rw [Nat.pow_mul]
    have apart := Nat.shiftLeft_add_eq_or_of_lt
      (show littleEndian bytes < 2 ^ (8 * bytes.length) by rw [power]; exact bound) byte.toNat
    have most : 256 ^ bytes.length ≤ 256 ^ 3 := Nat.pow_le_pow_right (by omega) (by omega)
    have fits : byte.toNat * 256 ^ bytes.length < 2 ^ 32 := by
      calc byte.toNat * 256 ^ bytes.length ≤ 255 * 256 ^ 3 := Nat.mul_le_mul (by omega) most
        _ < 2 ^ 32 := by decide
    rw [UInt32.toNat_or, UInt32.toNat_shiftLeft, amount, UInt8.toNat_toUInt32, value, Nat.or_comm]
    rw [toNat_value_ofBytes (by simp; omega), littleEndian_append]
    rw [Nat.shiftLeft_eq, power] at *
    rw [Nat.mod_eq_of_lt fits, ← apart]
    simp only [littleEndian, Nat.mul_zero, Nat.add_zero]
    rw [Nat.mul_comm (256 ^ bytes.length), Nat.add_comm]
  · apply UInt8.toNat_inj.mp
    rw [UInt8.toNat_add, size, toNat_size_ofBytes (by simp; omega)]
    simp only [List.length_append, List.length_cons, List.length_nil]
    change (bytes.length + 1) % 2 ^ 8 = _
    omega

theorem push_ofBytes_full {bytes : List UInt8} (full : bytes.length = 4) (byte : UInt8) :
    (ofBytes bytes).push byte = .error .bufferFull := by
  rw [push, if_neg]
  rw [size_ofBytes_lt_iff (by omega)]
  omega

theorem takeLowest_ofBytes {byte : UInt8} {rest : List UInt8} (few : rest.length < 4) :
    (ofBytes (byte :: rest)).takeLowest = (byte, ofBytes rest) := by
  have length : (byte :: rest).length ≤ 4 := few
  have size := toNat_size_ofBytes length
  have value := toNat_value_ofBytes length
  have bound := byte.toNat_lt
  refine Prod.ext ?_ (Buffer.ext ?_ ?_)
  · apply UInt8.toNat_inj.mp
    simp only [takeLowest, lowest, UInt32.toNat_toUInt8, value, littleEndian]
    omega
  · apply UInt32.toNat_inj.mp
    simp only [takeLowest, UInt32.toNat_shiftRight, value]
    rw [toNat_value_ofBytes (by omega)]
    simp only [UInt32.toNat_ofNat, Nat.shiftRight_eq_div_pow, littleEndian, Nat.reducePow, Nat.reduceMod]
    omega
  · apply UInt8.toNat_inj.mp
    simp only [takeLowest]
    rw [toNat_fewer, size, toNat_size_ofBytes (by omega), List.length_cons]
    omega

theorem lowest_ofBytes (byte : UInt8) {rest : List UInt8} (few : rest.length < 4) :
    (ofBytes (byte :: rest)).lowest = byte :=
  congrArg Prod.fst (takeLowest_ofBytes few)

theorem takeLowest_empty : empty.takeLowest = (0, empty) := by
  decide

theorem size_ofValue (value : UInt32) (size : UInt8) : (ofValue value size).size = size := by
  unfold ofValue
  split <;> rfl

theorem ofValue_toNat {value : UInt32} {size : UInt8} (few : size.toNat < 4) :
    (ofValue value size).value.toNat = value.toNat % 256 ^ size.toNat := by
  have power : 2 ^ (8 * size.toNat) = 256 ^ size.toNat := by
    rw [Nat.pow_mul]
  rw [ofValue, if_pos (UInt8.lt_iff_toNat_lt.mpr few)]
  have amount : (8 * size.toUInt32).toNat % 32 = 8 * size.toNat := by
    simp only [UInt32.toNat_mul, UInt8.toNat_toUInt32]
    change 8 * size.toNat % 2 ^ 32 % 32 = _
    omega
  have most : 256 ^ size.toNat ≤ 256 ^ 3 := Nat.pow_le_pow_right (by omega) (by omega)
  have one : 0 < 256 ^ size.toNat := Nat.pow_pos (by omega)
  have mask : ((1 : UInt32) <<< (8 * size.toUInt32) - 1).toNat = 2 ^ (8 * size.toNat) - 1 := by
    rw [UInt32.toNat_sub, UInt32.toNat_shiftLeft, amount, Nat.shiftLeft_eq, power]
    change (2 ^ 32 - 1 + 1 * 256 ^ size.toNat % 2 ^ 32) % 2 ^ 32 = _
    omega
  simp only [UInt32.toNat_and, mask]
  rw [Nat.and_two_pow_sub_one_eq_mod, power]

theorem takeHighest_ofBytes {byte : UInt8} {rest : List UInt8} (few : rest.length < 4) :
    (ofBytes (rest ++ [byte])).takeHighest = (.ok byte, ofBytes rest) := by
  have length : (rest ++ [byte]).length ≤ 4 := by simp; omega
  have size : (ofBytes (rest ++ [byte])).fewer.toNat = rest.length := by
    rw [toNat_fewer, toNat_size_ofBytes length]
    simp
  have value := toNat_value_ofBytes length
  have bound := littleEndian_lt rest
  have room := byte.toNat_lt
  have power : 2 ^ (8 * rest.length) = 256 ^ rest.length := by
    rw [Nat.pow_mul]
  rw [littleEndian_append] at value
  simp only [littleEndian, Nat.mul_zero, Nat.add_zero] at value
  rw [takeHighest, if_pos (UInt8.lt_iff_toNat_lt.mpr (by rw [size]; exact few))]
  refine Prod.ext (congrArg Except.ok ?_) (Buffer.ext ?_ ?_)
  · apply UInt8.toNat_inj.mp
    have amount : (8 * (ofBytes (rest ++ [byte])).fewer.toUInt32).toNat % 32 = 8 * rest.length := by
      simp only [UInt32.toNat_mul, UInt8.toNat_toUInt32, size]
      change 8 * rest.length % 2 ^ 32 % 32 = _
      omega
    rw [UInt32.toNat_toUInt8, UInt32.toNat_shiftRight, amount, value, Nat.shiftRight_eq_div_pow,
      power, Nat.add_mul_div_left _ _ (by omega), Nat.div_eq_of_lt bound]
    omega
  · apply UInt32.toNat_inj.mp
    rw [ofValue_toNat (by rw [size]; exact few), size, value, toNat_value_ofBytes (by omega),
      Nat.add_mul_mod_self_left, Nat.mod_eq_of_lt bound]
  · apply UInt8.toNat_inj.mp
    rw [size_ofValue, size, toNat_size_ofBytes (by omega)]

theorem takeHighest_empty : empty.takeHighest = (.ok 0, empty) := by
  rfl

end Buffer

end Microcode
