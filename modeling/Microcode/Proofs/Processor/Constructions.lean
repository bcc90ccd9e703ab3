import Microcode.Proofs.Processor.Address

namespace Microcode

abbrev State.holding (registers : Registers) (operand data : List UInt8)
    (dataAddress incrementMask uncorrected : UInt32) (skipNext : Bool) : State :=
  { registers, instructionBuffer := .ofBytes operand, dataBuffer := .ofBytes data, dataAddress,
    incrementMask, uncorrected, skipNext }

section

variable {R : Registers} {operand data : List UInt8} {A M U : UInt32} {marked : Bool}

theorem State.aim_holding (address mask : UInt32) :
    (State.holding R operand data A M U marked).aim address mask =
      .holding R operand data (.ofNat (address.toNat % 0x1000000)) mask U marked := by
  rw [← and_addressMask]
  rfl

theorem toNat_page_and_low {base : UInt32} (inside : base.toNat < 0x1000000) (address : UInt32) :
    ((base &&& 0xffff00) ||| (address &&& 0xff)).toNat =
      256 * (base.toNat / 256) + address.toNat % 256 := by
  have whole : base &&& addressMask = base := by
    apply UInt32.toNat_inj.mp
    rw [toNat_and_mask (k := 24) rfl]
    exact Nat.mod_eq_of_lt inside
  have page : base &&& 0xffff00 = base &&& ~~~0xff := by
    rw [← whole, UInt32.and_assoc, UInt32.and_assoc]
    rfl
  rw [page]
  exact toNat_splice (k := 8) (by decide) rfl base address

-- The dummy read may go just when the sum stays on the page of the base, also
-- where the index exceeds a byte or the sum wraps.
theorem State.aimIndexed_holding {base : UInt32} (inside : base.toNat < 0x1000000) (index : Index)
    (elide : Bool) :
    (State.holding R operand data A M U marked).aimIndexed base index elide =
      .holding R operand data (.ofNat ((base.toNat + (R.index index).toNat) % 0x1000000))
        addressMask
        (.ofNat (256 * (base.toNat / 256) + (base.toNat + (R.index index).toNat) % 256))
        (elide && R.indexWidth == .eight &&
          decide (base.toNat % 256 + (R.index index).toNat ≤ 255)) := by
  have low := (R.index index).toNat_lt
  have sum : (base + (R.index index).toUInt32) &&& addressMask =
      .ofNat ((base.toNat + (R.index index).toNat) % 0x1000000) := by
    rw [and_addressMask, UInt32.toNat_add, UInt16.toNat_toUInt32]
    congr 1
    omega
  have value : (UInt32.ofNat ((base.toNat + (R.index index).toNat) % 0x1000000)).toNat =
      (base.toNat + (R.index index).toNat) % 0x1000000 := by
    rw [UInt32.toNat_ofNat']
    omega
  have dummy : (base &&& 0xffff00) |||
      (UInt32.ofNat ((base.toNat + (R.index index).toNat) % 0x1000000) &&& 0xff) =
        .ofNat (256 * (base.toNat / 256) + (base.toNat + (R.index index).toNat) % 256) := by
    apply UInt32.toNat_inj.mp
    rw [toNat_page_and_low inside, value, UInt32.toNat_ofNat']
    omega
  have kept : (UInt32.ofNat ((base.toNat + (R.index index).toNat) % 0x1000000) ==
      UInt32.ofNat (256 * (base.toNat / 256) + (base.toNat + (R.index index).toNat) % 256)) =
        decide (base.toNat % 256 + (R.index index).toNat ≤ 255) := by
    rw [Bool.eq_iff_iff, beq_iff_eq, decide_eq_true_iff, ← UInt32.toNat_inj, value,
      UInt32.toNat_ofNat']
    omega
  simp only [aimIndexed, aim_holding]
  rw [sum, dummy, kept, value, Nat.mod_mod]

theorem State.dropPointer_holding :
    (State.holding R operand data A M U marked).dropPointer =
      .holding R operand [] A M U marked := rfl

theorem State.aimDirect_holding (one : operand.length = 1) (offset : UInt16) :
    (State.holding R operand data A M U marked).aimDirect offset =
      .holding R operand data
        (.ofNat ((R.direct.toNat + littleEndian operand + offset.toNat) % 0x10000)) bankMask U
        (R.direct.toUInt8 == 0) := by
  have sum : (R.direct + (Buffer.ofBytes operand).lowest.toUInt16 + offset).toUInt32.toNat =
      (R.direct.toNat + littleEndian operand + offset.toNat) % 0x10000 := by
    rw [UInt16.toNat_toUInt32, UInt16.toNat_add, UInt16.toNat_add, Buffer.toNat_low_byte one]
    omega
  simp only [aimDirect, aim_holding]
  rw [sum, Nat.mod_mod_of_dvd' (by decide)]

namespace Construction

theorem toNat_inBank_bytes {bytes : List UInt8} (two : bytes.length = 2) (bank : UInt8) :
    (inBank bank (Buffer.ofBytes bytes).value.toUInt16).toNat =
      bank.toNat * 0x10000 + littleEndian bytes := by
  rw [toNat_inBank, Buffer.toNat_low_word two]

theorem toNat_long_sum {bytes : List UInt8} (three : bytes.length = 3) (index : UInt16) :
    ((Buffer.ofBytes bytes).value + index.toUInt32).toNat = littleEndian bytes + index.toNat := by
  have bound := littleEndian_lt bytes
  have low := index.toNat_lt
  rw [three] at bound
  rw [UInt32.toNat_add, Buffer.toNat_value_ofBytes (by omega), UInt16.toNat_toUInt32]
  omega

theorem absolute_apply (two : operand.length = 2) :
    Construction.absolute.apply (.holding R operand data A M U marked) =
      .ok (.holding R operand data (.ofNat (R.dataBank.toNat * 0x10000 + littleEndian operand))
        addressMask U marked) := by
  have inside := toNat_inBank_lt R.dataBank (Buffer.ofBytes operand).value.toUInt16
  rw [apply, State.aim_holding, Nat.mod_eq_of_lt inside, toNat_inBank_bytes two]

theorem absoluteBankZero_apply (two : operand.length = 2) :
    Construction.absoluteBankZero.apply (.holding R operand data A M U marked) =
      .ok (.holding R operand data (.ofNat (littleEndian operand)) bankMask U marked) := by
  have bound := littleEndian_lt operand
  rw [two] at bound
  rw [apply, State.aim_holding, UInt16.toNat_toUInt32, Buffer.toNat_low_word two,
    Nat.mod_eq_of_lt (by omega)]

theorem absoluteLong_apply (three : operand.length = 3) :
    Construction.absoluteLong.apply (.holding R operand data A M U marked) =
      .ok (.holding R operand data (.ofNat (littleEndian operand)) addressMask U marked) := by
  have bound := littleEndian_lt operand
  rw [three] at bound
  rw [apply, State.aim_holding, Buffer.toNat_value_ofBytes (by omega),
    Nat.mod_eq_of_lt (show _ < 0x1000000 from bound)]

theorem absoluteLongX_apply (three : operand.length = 3) :
    Construction.absoluteLongX.apply (.holding R operand data A M U marked) =
      .ok (.holding R operand data (.ofNat ((littleEndian operand + R.x.toNat) % 0x1000000))
        addressMask U marked) := by
  rw [apply, State.aim_holding, toNat_long_sum three]

theorem absoluteIndexed_apply (two : operand.length = 2) (index : Index) (elide : Bool) :
    (Construction.absoluteIndexed index elide).apply (.holding R operand data A M U marked) =
      .ok ((State.holding R operand data A M U marked).aimIndexed
        (.ofNat (R.dataBank.toNat * 0x10000 + littleEndian operand)) index elide) := by
  rw [← toNat_inBank_bytes two, UInt32.ofNat_toNat]
  rfl

-- The operand has two bytes, so the sum cannot be out of reach.
theorem absoluteIndexedIndirect_apply (two : operand.length = 2) :
    Construction.absoluteIndexedIndirect.apply (.holding R operand data A M U marked) =
      .ok (.holding R operand data
        (.ofNat (R.programBank.toNat * 0x10000 + (littleEndian operand + R.x.toNat) % 0x10000))
        bankMask U marked) := by
  have bound := littleEndian_lt operand
  have index := R.x.toNat_lt
  rw [two] at bound
  have value := Buffer.toNat_value_ofBytes (show operand.length ≤ 4 by omega)
  have sum : ((Buffer.ofBytes operand).value + R.x.toUInt32).toUInt16.toNat =
      (littleEndian operand + R.x.toNat) % 0x10000 := by
    rw [UInt32.toNat_toUInt16, UInt32.toNat_add, value, UInt16.toNat_toUInt32]
    omega
  have reach : addIndex (Buffer.ofBytes operand).value R.x =
      .ok ((Buffer.ofBytes operand).value + R.x.toUInt32) := by
    rw [addIndex, if_pos (by rw [value]; omega)]
  have inside := toNat_inBank_lt R.programBank
    ((Buffer.ofBytes operand).value + R.x.toUInt32).toUInt16
  rw [apply, reach]
  refine congrArg Except.ok ?_
  rw [State.aim_holding, Nat.mod_eq_of_lt inside, toNat_inBank, sum]

theorem directIndirect_apply (two : data.length = 2) :
    Construction.directIndirect.apply (.holding R operand data A M U marked) =
      .ok (.holding R operand [] (.ofNat (R.dataBank.toNat * 0x10000 + littleEndian data))
        addressMask U marked) := by
  have inside := toNat_inBank_lt R.dataBank (Buffer.ofBytes data).value.toUInt16
  rw [apply, State.dropPointer_holding, State.aim_holding, Nat.mod_eq_of_lt inside, toNat_inBank_bytes two]

theorem directIndirectIndexed_apply (two : data.length = 2) (elide : Bool) :
    (Construction.directIndirectIndexed elide).apply (.holding R operand data A M U marked) =
      .ok ((State.holding R operand [] A M U marked).aimIndexed
        (.ofNat (R.dataBank.toNat * 0x10000 + littleEndian data)) .y elide) := by
  rw [← toNat_inBank_bytes two, UInt32.ofNat_toNat]
  rfl

theorem directIndirectLong_apply (three : data.length = 3) :
    Construction.directIndirectLong.apply (.holding R operand data A M U marked) =
      .ok (.holding R operand [] (.ofNat (littleEndian data)) addressMask U marked) := by
  have bound := littleEndian_lt data
  rw [three] at bound
  rw [apply, State.dropPointer_holding, State.aim_holding, Buffer.toNat_value_ofBytes (by omega),
    Nat.mod_eq_of_lt (show _ < 0x1000000 from bound)]

theorem directIndirectLongIndexed_apply (three : data.length = 3) :
    Construction.directIndirectLongIndexed.apply (.holding R operand data A M U marked) =
      .ok (.holding R operand [] (.ofNat ((littleEndian data + R.y.toNat) % 0x1000000))
        addressMask U marked) := by
  rw [apply, State.dropPointer_holding, State.aim_holding, toNat_long_sum three]

theorem stackRelative_apply (one : operand.length = 1) :
    Construction.stackRelative.apply (.holding R operand data A M U marked) =
      .ok (.holding R operand data (.ofNat ((R.s.toNat + littleEndian operand) % 0x10000))
        bankMask U marked) := by
  have sum : (R.s + (Buffer.ofBytes operand).lowest.toUInt16).toUInt32.toNat =
      (R.s.toNat + littleEndian operand) % 0x10000 := by
    rw [UInt16.toNat_toUInt32, UInt16.toNat_add, Buffer.toNat_low_byte one]
  rw [apply, State.aim_holding, sum, Nat.mod_mod_of_dvd' (by decide)]

theorem stackRelativeIndirectIndexed_apply (two : data.length = 2) :
    Construction.stackRelativeIndirectIndexed.apply (.holding R operand data A M U marked) =
      .ok (.holding R operand []
        (.ofNat ((R.dataBank.toNat * 0x10000 + littleEndian data + R.y.toNat) % 0x1000000))
        addressMask U marked) := by
  have inside := toNat_inBank_lt R.dataBank (Buffer.ofBytes data).value.toUInt16
  have index := R.y.toNat_lt
  have sum : (inBank R.dataBank (Buffer.ofBytes data).value.toUInt16 + R.y.toUInt32).toNat =
      R.dataBank.toNat * 0x10000 + littleEndian data + R.y.toNat := by
    rw [UInt32.toNat_add, UInt16.toNat_toUInt32, ← toNat_inBank_bytes two]
    omega
  have reach : addIndex (inBank R.dataBank (Buffer.ofBytes data).value.toUInt16) R.y =
      .ok (inBank R.dataBank (Buffer.ofBytes data).value.toUInt16 + R.y.toUInt32) := by
    rw [addIndex, if_pos (by omega)]
  rw [apply, reach]
  refine congrArg Except.ok ?_
  rw [State.dropPointer_holding, State.aim_holding, sum]

end Construction

end

end Microcode
