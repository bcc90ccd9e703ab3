import Mathlib
import Microcode.Processor.Bytes
import Microcode.Processor.Construct

namespace Microcode

theorem and_low_bits (n k : Nat) : n &&& (2 ^ k - 1) = n % 2 ^ k :=
  Nat.and_two_pow_sub_one_eq_mod n k

theorem and_high_bits {n k bits : Nat} (bound : n < 2 ^ bits) (wide : k ≤ bits) :
    n &&& (2 ^ bits - 1 - (2 ^ k - 1)) = 2 ^ k * (n / 2 ^ k) := by
  have positive : 0 < 2 ^ k := Nat.two_pow_pos k
  have most : 2 ^ k ≤ 2 ^ bits := Nat.pow_le_pow_right (by decide) wide
  have complement : 2 ^ bits - 1 - (2 ^ k - 1) = 2 ^ bits - ((2 ^ k - 1) + 1) := by omega
  apply Nat.eq_of_testBit_eq
  intro i
  rw [complement, Nat.testBit_and, Nat.testBit_two_pow_sub_succ (by omega),
    Nat.testBit_two_pow_sub_one, Nat.testBit_two_pow_mul, Nat.testBit_div_two_pow]
  by_cases low : i < k
  · simp [low]
  · have split : i - k + k = i := by omega
    by_cases high : i < bits
    · simp [low, high, split, Nat.le_of_not_lt low]
    · have beyond : n < 2 ^ i :=
        Nat.lt_of_lt_of_le bound (Nat.pow_le_pow_right (by decide) (by omega))
      simp [high, split, Nat.testBit_lt_two_pow beyond]

theorem toNat_and_mask {mask : UInt32} {k : Nat} (low : mask.toNat = 2 ^ k - 1) (address : UInt32) :
    (address &&& mask).toNat = address.toNat % 2 ^ k := by
  rw [UInt32.toNat_and, low, and_low_bits]

theorem toNat_splice {mask : UInt32} {k : Nat} (wide : k ≤ 32) (low : mask.toNat = 2 ^ k - 1)
    (kept counted : UInt32) :
    ((kept &&& ~~~mask) ||| (counted &&& mask)).toNat =
      2 ^ k * (kept.toNat / 2 ^ k) + counted.toNat % 2 ^ k := by
  have high := and_high_bits kept.toNat_lt wide
  have below : counted.toNat % 2 ^ k < 2 ^ k := Nat.mod_lt _ (Nat.two_pow_pos k)
  rw [UInt32.toNat_or, toNat_and_mask low, UInt32.toNat_and, UInt32.toNat_not, low,
    Nat.two_pow_add_eq_or_of_lt below]
  exact congrArg (· ||| _) high

namespace Datapath

theorem toNat_stepUp {d : Datapath} {k : Nat} (wide : k ≤ 32)
    (low : d.incrementMask.toNat = 2 ^ k - 1) :
    d.stepUp.dataAddress.toNat =
      2 ^ k * (d.dataAddress.toNat / 2 ^ k) + (d.dataAddress.toNat + 1) % 2 ^ k := by
  have divides : 2 ^ k ∣ 2 ^ 32 := Nat.pow_dvd_pow 2 wide
  simp only [stepUp]
  rw [toNat_splice wide low, UInt32.toNat_add]
  exact congrArg (_ + ·) (Nat.mod_mod_of_dvd _ divides)

-- A step down is as many steps up as lead once around, but for one.
theorem toNat_stepDown {d : Datapath} {k : Nat} (wide : k ≤ 32)
    (low : d.incrementMask.toNat = 2 ^ k - 1) :
    d.stepDown.dataAddress.toNat =
      2 ^ k * (d.dataAddress.toNat / 2 ^ k) + (d.dataAddress.toNat + (2 ^ k - 1)) % 2 ^ k := by
  have positive : 0 < 2 ^ k := Nat.two_pow_pos k
  obtain ⟨rounds, whole⟩ : 2 ^ k ∣ 2 ^ 32 := Nat.pow_dvd_pow 2 wide
  obtain ⟨more, rfl⟩ : ∃ more, rounds = more + 1 := by
    cases rounds with
    | zero => simp at whole
    | succ more => exact ⟨more, rfl⟩
  have around : 2 ^ 32 - 1 + d.dataAddress.toNat =
      d.dataAddress.toNat + (2 ^ k - 1) + 2 ^ k * more := by
    rw [whole, Nat.mul_succ]
    omega
  simp only [stepDown]
  rw [toNat_splice wide low, UInt32.toNat_sub]
  refine congrArg (2 ^ k * (d.dataAddress.toNat / 2 ^ k) + ·) ?_
  change (2 ^ 32 - 1 + d.dataAddress.toNat) % 2 ^ 32 % 2 ^ k = _
  rw [Nat.mod_mod_of_dvd _ ⟨_, whole⟩, around, Nat.add_mul_mod_self_left]

end Datapath

inductive Wrap where
  | bank
  | banks
  deriving DecidableEq

namespace Wrap

def size : Wrap → Nat
  | .bank => 0x10000
  | .banks => 0x1000000

def mask : Wrap → UInt32
  | .bank => bankMask
  | .banks => addressMask

theorem toNat_mask (w : Wrap) : ∃ k ≤ 24, w.size = 2 ^ k ∧ w.mask.toNat = 2 ^ k - 1 := by
  cases w with
  | bank => exact ⟨16, by decide, rfl, rfl⟩
  | banks => exact ⟨24, by decide, rfl, rfl⟩

def after (w : Wrap) (address count : Nat) : Nat :=
  w.size * (address / w.size) + (address + count) % w.size

theorem after_lt (w : Wrap) {address : Nat} (inside : address < 0x1000000) (count : Nat) :
    w.after address count < 0x1000000 := by
  cases w <;> simp only [after, size] <;> omega

theorem after_of_lt {w : Wrap} {address : Nat} (inside : address < w.size) (count : Nat) :
    w.after address count = (address + count) % w.size := by
  rw [after, Nat.div_eq_of_lt inside, Nat.mul_zero, Nat.zero_add]

theorem after_zero (w : Wrap) (address : Nat) : w.after address 0 = address := by
  rw [after, Nat.add_zero, Nat.div_add_mod]

theorem after_after (w : Wrap) (address one two : Nat) :
    w.after (w.after address one) two = w.after address (one + two) := by
  cases w <;> simp only [after, size] <;> omega

end Wrap

theorem Datapath.stepUp_ofNat {d : Datapath} {w : Wrap} {n : Nat} (inside : n < 0x1000000)
    (address : d.dataAddress = .ofNat n) (mask : d.incrementMask = w.mask) :
    d.stepUp = { d with dataAddress := .ofNat (w.after n 1) } := by
  obtain ⟨k, small, size, low⟩ := w.toNat_mask
  have value : d.dataAddress.toNat = n := by
    rw [address, UInt32.toNat_ofNat']
    omega
  have moved : d.stepUp.dataAddress = .ofNat (w.after n 1) := by
    apply UInt32.toNat_inj.mp
    have bound := w.after_lt inside 1
    rw [toNat_stepUp (k := k) (by omega) (mask ▸ low), value, ← size, UInt32.toNat_ofNat']
    exact (Nat.mod_eq_of_lt (Nat.lt_trans bound (by decide))).symm
  rw [← moved]
  rfl

theorem Datapath.stepDown_ofNat {d : Datapath} {w : Wrap} {n : Nat} (inside : n < 0x1000000)
    (address : d.dataAddress = .ofNat (w.after n 1)) (mask : d.incrementMask = w.mask) :
    d.stepDown = { d with dataAddress := .ofNat n } := by
  obtain ⟨k, small, size, low⟩ := w.toNat_mask
  have value : d.dataAddress.toNat = w.after n 1 := by
    have bound := w.after_lt inside 1
    rw [address, UInt32.toNat_ofNat']
    omega
  have back : w.size * (w.after n 1 / w.size) + (w.after n 1 + (w.size - 1)) % w.size = n := by
    cases w <;> simp only [Wrap.after, Wrap.size] <;> omega
  have moved : d.stepDown.dataAddress = .ofNat n := by
    apply UInt32.toNat_inj.mp
    rw [toNat_stepDown (k := k) (by omega) (mask ▸ low), value, ← size, back, UInt32.toNat_ofNat']
    omega
  rw [← moved]
  rfl

theorem and_addressMask (address : UInt32) :
    address &&& addressMask = .ofNat (address.toNat % 0x1000000) := by
  apply UInt32.toNat_inj.mp
  rw [toNat_and_mask (k := 24) rfl, UInt32.toNat_ofNat']
  omega

theorem toNat_inBank_lt (bank : UInt8) (offset : UInt16) : (inBank bank offset).toNat < 0x1000000 := by
  have high := bank.toNat_lt
  have low := offset.toNat_lt
  rw [toNat_inBank]
  omega

namespace Buffer

theorem toNat_low_word {bytes : List UInt8} (two : bytes.length = 2) :
    (ofBytes bytes).value.toUInt16.toNat = littleEndian bytes := by
  have bound := littleEndian_lt bytes
  rw [two] at bound
  rw [UInt32.toNat_toUInt16, toNat_value_ofBytes (by omega)]
  exact Nat.mod_eq_of_lt bound

theorem toNat_low_byte {bytes : List UInt8} (one : bytes.length = 1) :
    (ofBytes bytes).lowest.toUInt16.toNat = littleEndian bytes := by
  have bound := littleEndian_lt bytes
  rw [one] at bound
  rw [UInt8.toNat_toUInt16, lowest, UInt32.toNat_toUInt8, toNat_value_ofBytes (by omega)]
  exact Nat.mod_eq_of_lt bound

end Buffer

end Microcode
