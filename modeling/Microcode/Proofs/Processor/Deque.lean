import Microcode.Bench.Action
import Microcode.Proofs.Processor.Bounds

namespace Microcode

namespace Hex

def byteDigits (byte : UInt8) : List Char :=
  [digit (byte.toNat / 16), digit (byte.toNat % 16)]

theorem padded_byte (byte : UInt8) : padded 2 byte.toNat = byteDigits byte := by
  have bound := byte.toNat_lt
  have high : byte.toNat / 16 < 16 := by omega
  rw [padded_succ Nat.one_pos, padded, digits_of_lt high]
  rfl

theorem padded_littleEndian {bytes : List UInt8} (held : bytes ≠ []) :
    padded (2 * bytes.length) (littleEndian bytes) = bytes.reverse.flatMap byteDigits := by
  induction bytes with
  | nil => exact absurd rfl held
  | cons byte rest ih =>
    have bound := byte.toNat_lt
    cases rest with
    | nil => simpa [littleEndian] using padded_byte byte
    | cons next more =>
      have two : 2 * (byte :: next :: more).length = 2 * (next :: more).length + 1 + 1 := rfl
      have above : (byte.toNat + 256 * littleEndian (next :: more)) / 16 / 16 =
          littleEndian (next :: more) := by omega
      have high : (byte.toNat + 256 * littleEndian (next :: more)) / 16 % 16 = byte.toNat / 16 := by
        omega
      have low : (byte.toNat + 256 * littleEndian (next :: more)) % 16 = byte.toNat % 16 := by omega
      rw [two, littleEndian, padded_succ (by simp), padded_succ (by simp), above, high, low,
        ih (by simp), List.reverse_cons, List.flatMap_append]
      simp [byteDigits]

def ofBytes (bytes : List UInt8) : String :=
  if bytes = [] then "0" else String.ofList (bytes.reverse.flatMap byteDigits)

end Hex

namespace Buffer

structure Encodes (b : Buffer) (bytes : List UInt8) : Prop where
  few : bytes.length ≤ 4
  size : b.size.toNat = bytes.length
  value : b.value.toNat = littleEndian bytes

inductive Made : Buffer → List UInt8 → Prop where
  | empty : Made {} []
  | ofValue (value : UInt32) {size : UInt8} :
      size.toNat ≤ 4 → Made (.ofValue value size) (lowBytes size.toNat value.toNat)

theorem encodes_ofBytes {bytes : List UInt8} (few : bytes.length ≤ 4) :
    (ofBytes bytes).Encodes bytes :=
  ⟨few, toNat_size_ofBytes few, toNat_value_ofBytes few⟩

namespace Encodes

variable {b other : Buffer} {bytes list : List UInt8}

theorem eq_ofBytes (encodes : b.Encodes bytes) : b = ofBytes bytes := by
  refine Buffer.ext (UInt32.toNat_inj.mp ?_) (UInt8.toNat_inj.mp ?_)
  · rw [encodes.value, toNat_value_ofBytes encodes.few]
  · rw [encodes.size, toNat_size_ofBytes encodes.few]

theorem eq_iff (encodes : b.Encodes bytes) (also : other.Encodes list) :
    b = other ↔ bytes = list := by
  constructor
  · rintro rfl
    rw [← lowBytes_littleEndian bytes, ← lowBytes_littleEndian list, ← encodes.size, ← encodes.value,
      also.size, also.value]
  · rintro rfl
    rw [encodes.eq_ofBytes, also.eq_ofBytes]

end Encodes

theorem encodes_ofValue (value : UInt32) {size : UInt8} (few : size.toNat ≤ 4) :
    (ofValue value size).Encodes (lowBytes size.toNat value.toNat) := by
  refine ⟨(length_lowBytes ..).le.trans few, ?_, ?_⟩
  · rw [size_ofValue, length_lowBytes]
  · rw [littleEndian_lowBytes]
    rcases Nat.lt_or_eq_of_le few with less | four
    · exact ofValue_toNat less
    · have whole : ¬ size < 4 := by
        rw [UInt8.lt_iff_toNat_lt, four]
        decide
      rw [ofValue, if_neg whole, four]
      exact (Nat.mod_eq_of_lt value.toNat_lt).symm

theorem encodes_of_within {value : UInt32} {size : UInt8} (within : Within ⟨value, size⟩ 4) :
    Encodes ⟨value, size⟩ (lowBytes size.toNat value.toNat) := by
  refine ⟨(length_lowBytes ..).le.trans within.size, (length_lowBytes ..).symm, ?_⟩
  rw [littleEndian_lowBytes]
  exact (Nat.mod_eq_of_lt within.value).symm

theorem Made.encodes {b : Buffer} {bytes : List UInt8} (made : Made b bytes) : b.Encodes bytes := by
  cases made with
  | empty => exact ⟨Nat.zero_le _, rfl, rfl⟩
  | ofValue value few => exact encodes_ofValue value few

section

variable {bytes : List UInt8} (few : bytes.length ≤ 4)
include few

theorem takeLowest_encoded :
    (ofBytes bytes).takeLowest = (bytes.headD 0, ofBytes bytes.tail) := by
  cases bytes with
  | nil => exact takeLowest_empty
  | cons byte rest => exact takeLowest_ofBytes few

theorem takeHighest_encoded :
    (ofBytes bytes).takeHighest = (.ok (bytes.getLastD 0), ofBytes bytes.dropLast) := by
  rcases List.eq_nil_or_concat' bytes with rfl | ⟨rest, byte, rfl⟩
  · exact takeHighest_empty
  · rw [List.length_append] at few
    rw [takeHighest_ofBytes few, List.dropLast_concat, List.getLastD_concat]

theorem lowest_encoded : (ofBytes bytes).lowest = bytes.headD 0 :=
  congrArg Prod.fst (takeLowest_encoded few)

theorem word_encoded : (ofBytes bytes).word.toNat = littleEndian (bytes.take 2) := by
  have bound := littleEndian_lt (bytes.take 2)
  have most : (bytes.take 2).length ≤ 2 := List.length_take_le ..
  have parts := littleEndian_append (bytes.take 2) (bytes.drop 2)
  have power : 256 ^ (bytes.take 2).length ≤ 256 ^ 2 := Nat.pow_le_pow_right (by decide) most
  rw [List.take_append_drop] at parts
  rw [word, UInt32.toNat_toUInt16, toNat_value_ofBytes few, parts]
  rcases Nat.lt_or_ge 2 bytes.length with more | less
  · rw [List.length_take_of_le more.le] at bound ⊢
    omega
  · rw [List.drop_eq_nil_of_le less, littleEndian, Nat.mul_zero, Nat.add_zero]
    omega

theorem isEmpty_encoded : (ofBytes bytes).isEmpty = bytes.isEmpty := by
  have size := toNat_size_ofBytes few
  rw [isEmpty, Bool.eq_iff_iff, beq_iff_eq, ← UInt8.toNat_inj, size, List.isEmpty_iff,
    ← List.length_eq_zero_iff]
  rfl

theorem toString_encoded : toString (ofBytes bytes) = Hex.ofBytes bytes := by
  change Hex.upper _ _ = _
  rw [toNat_size_ofBytes few, toNat_value_ofBytes few]
  by_cases none : bytes = []
  · subst none
    rw [Hex.upper, Hex.padded, littleEndian, Hex.digits_of_lt (by decide)]
    rfl
  · rw [Hex.upper, Hex.padded_littleEndian none, Hex.ofBytes, if_neg none]

end

end Buffer

namespace Bench.BufferAction

open Buffer (ofBytes)

-- The fields that an action sets or compares are those of a buffer of at most four
-- bytes with nothing above them.
def IsProper : BufferAction → Prop
  | .hold _ size => size.toNat ≤ 4
  | .set value size | .compare value size => Buffer.Within ⟨value, size⟩ 4
  | _ => True

def onBytes (bytes : List UInt8) : BufferAction → Answer × List UInt8
  | .hold value size | .set value size => (.nothing, lowBytes size.toNat value.toNat)
  | .push byte =>
    if bytes.length < 4 then (.nothing, bytes ++ [byte]) else (.fault .bufferFull, bytes)
  | .clear => (.nothing, [])
  | .takeLowest => (.number (bytes.headD 0).toNat, bytes.tail)
  | .takeHighest => (.number (bytes.getLastD 0).toNat, bytes.dropLast)
  | .lowest => (.number (bytes.headD 0).toNat, bytes)
  | .word => (.number (littleEndian (bytes.take 2)), bytes)
  | .isEmpty => (.flag bytes.isEmpty, bytes)
  | .compare value size => (.flag (bytes == lowBytes size.toNat value.toNat), bytes)
  | .text => (.text (Hex.ofBytes bytes), bytes)

def follow {α : Type} (step : α → BufferAction → Answer × α) (first : α) :
    List BufferAction → List Answer × α
  | [] => ([], first)
  | action :: rest =>
    let (answer, next) := step first action
    let (answers, last) := follow step next rest
    (answer :: answers, last)

variable {b : Buffer} {bytes : List UInt8} {action : BufferAction} {actions : List BufferAction}

theorem length_onBytes (few : bytes.length ≤ 4) (proper : action.IsProper) :
    (action.onBytes bytes).2.length ≤ 4 := by
  cases action with
  | hold value size => exact (length_lowBytes ..).le.trans proper
  | set value size => exact (length_lowBytes ..).le.trans proper.size
  | push byte =>
    rw [onBytes]
    split
    · rename_i room
      rw [List.length_append]
      exact room
    · exact few
  | clear => exact Nat.zero_le _
  | takeLowest =>
    rw [onBytes, List.length_tail]
    exact (Nat.sub_le ..).trans few
  | takeHighest =>
    rw [onBytes, List.length_dropLast]
    exact (Nat.sub_le ..).trans few
  | _ => exact few

theorem run_ofBytes (few : bytes.length ≤ 4) (proper : action.IsProper) :
    run (ofBytes bytes) action = ((action.onBytes bytes).1, ofBytes (action.onBytes bytes).2) := by
  cases action with
  | hold value size => rw [run, onBytes, (Buffer.encodes_ofValue value proper).eq_ofBytes]
  | set value size => rw [run, onBytes, (Buffer.encodes_of_within proper).eq_ofBytes]
  | push byte =>
    rw [run, onBytes]
    rcases Nat.lt_or_eq_of_le few with room | full
    · rw [Buffer.push_ofBytes room, if_pos room]
    · rw [Buffer.push_ofBytes_full full, if_neg full.not_lt]
  | clear => rfl
  | takeLowest => rw [run, onBytes, Buffer.takeLowest_encoded few]
  | takeHighest => rw [run, onBytes, Buffer.takeHighest_encoded few]
  | lowest => rw [run, onBytes, Buffer.lowest_encoded few]
  | word => rw [run, onBytes, Buffer.word_encoded few]
  | isEmpty => rw [run, onBytes, Buffer.isEmpty_encoded few]
  | compare value size =>
    have same := (Buffer.encodes_ofBytes few).eq_iff (Buffer.encodes_of_within proper)
    rw [run, onBytes, Bool.eq_iff_iff.mpr (beq_iff_eq.trans (same.trans beq_iff_eq.symm))]
  | text => rw [run, onBytes, Buffer.toString_encoded few]

theorem follow_ofBytes (few : bytes.length ≤ 4) (proper : ∀ action ∈ actions, action.IsProper) :
    (follow run (ofBytes bytes) actions).1 = (follow onBytes bytes actions).1 ∧
      (follow run (ofBytes bytes) actions).2.Encodes (follow onBytes bytes actions).2 := by
  induction actions generalizing bytes with
  | nil => exact ⟨rfl, Buffer.encodes_ofBytes few⟩
  | cons action rest ih =>
    obtain ⟨now, later⟩ := List.forall_mem_cons.mp proper
    obtain ⟨answers, left⟩ := ih (length_onBytes few now) later
    simp only [follow, run_ofBytes few now]
    exact ⟨congrArg _ answers, left⟩

theorem fault_onBytes {cause : Fault} (failed : (action.onBytes bytes).1 = .fault cause) :
    cause = .bufferFull := by
  cases action with
  | push byte =>
    rw [onBytes] at failed
    split at failed
    · cases failed
    · cases failed
      rfl
  | _ => cases failed

theorem fault_follow {cause : Fault} (failed : .fault cause ∈ (follow onBytes bytes actions).1) :
    cause = .bufferFull := by
  induction actions generalizing bytes with
  | nil => cases failed
  | cons action rest ih =>
    rcases List.mem_cons.mp failed with now | later
    · exact fault_onBytes now.symm
    · exact ih later

structure ActsAsDeque (b : Buffer) (bytes : List UInt8) (actions : List BufferAction) : Prop where
  answers : (follow run b actions).1 = (follow onBytes bytes actions).1
  encodes : (follow run b actions).2.Encodes (follow onBytes bytes actions).2
  onlyFull : ∀ cause, .fault cause ∈ (follow run b actions).1 → cause = .bufferFull
  reach : 8 * (follow run b actions).2.fewer.toNat < 32
  equal : ∀ other list, other.Encodes list →
    ((follow run b actions).2 = other ↔ (follow onBytes bytes actions).2 = list)

theorem acts_as_deque (made : b.Made bytes) (proper : ∀ action ∈ actions, action.IsProper) :
    ActsAsDeque b bytes actions := by
  have begins := made.encodes
  obtain ⟨answers, left⟩ := follow_ofBytes begins.few proper
  rw [← begins.eq_ofBytes] at answers left
  refine ⟨answers, left, fun cause failed => ?_, ?_, fun other list => left.eq_iff⟩
  · rw [answers] at failed
    exact fault_follow failed
  · have few := left.few
    rw [Buffer.toNat_fewer, left.size]
    omega

theorem acts_as_deque_both_ends :
    let actions : List BufferAction :=
      [.push 0xCD, .push 0xEF, .push 0x01, .takeHighest, .text, .takeLowest, .word, .takeHighest,
        .takeLowest, .takeHighest, .push 0x80, .compare 0x80 1]
    (Buffer.ofValue 0x12345 2).Made [0x45, 0x23] ∧ (∀ action ∈ actions, action.IsProper) ∧
      ActsAsDeque (.ofValue 0x12345 2) [0x45, 0x23] actions ∧
      (follow onBytes [0x45, 0x23] actions).1 =
        [.nothing, .nothing, .fault .bufferFull, .number 0xEF, .text "CD2345", .number 0x45,
          .number 0xCD23, .number 0xCD, .number 0x23, .number 0, .nothing, .flag true] := by
  intro actions
  have made : (Buffer.ofValue 0x12345 2).Made [0x45, 0x23] := .ofValue 0x12345 (by decide)
  have proper : ∀ action ∈ actions, action.IsProper := by
    have held : Buffer.Within ⟨0x80, 1⟩ 4 := ⟨by decide, by decide⟩
    simp [actions, IsProper, held]
  exact ⟨made, proper, acts_as_deque made proper, by decide +kernel⟩

end Bench.BufferAction

end Microcode
