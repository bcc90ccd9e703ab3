import Mathlib
import Microcode.Proofs.Processor.Address

namespace Microcode

theorem toNat_and_not_mask {mask : UInt32} {k : Nat} (low : mask.toNat = 2 ^ k - 1) (wide : k ≤ 32)
    (address : UInt32) : (address &&& ~~~mask).toNat = 2 ^ k * (address.toNat / 2 ^ k) := by
  rw [UInt32.toNat_and, UInt32.toNat_not, low]
  exact and_high_bits address.toNat_lt wide

theorem eq_of_and_mask_eq {mask one two : UInt32} {k : Nat} (low : mask.toNat = 2 ^ k - 1)
    (wide : k ≤ 32) (under : one &&& mask = two &&& mask) (above : one &&& ~~~mask = two &&& ~~~mask) :
    one = two := by
  have rest : one.toNat % 2 ^ k = two.toNat % 2 ^ k := by
    rw [← toNat_and_mask low, ← toNat_and_mask low, under]
  have whole : one.toNat / 2 ^ k = two.toNat / 2 ^ k := by
    have same := congrArg UInt32.toNat above
    rw [toNat_and_not_mask low wide, toNat_and_not_mask low wide] at same
    exact Nat.eq_of_mul_eq_mul_left (Nat.two_pow_pos k) same
  apply UInt32.toNat_inj.mp
  rw [← Nat.div_add_mod one.toNat (2 ^ k), ← Nat.div_add_mod two.toNat (2 ^ k), rest, whole]

namespace Datapath

theorem le_of_lowMask {d : Datapath} {k : Nat} (low : d.incrementMask.toNat = 2 ^ k - 1) : k ≤ 32 := by
  have bound := d.incrementMask.toNat_lt
  have positive := Nat.two_pow_pos k
  exact (Nat.pow_le_pow_iff_right (by decide)).mp (show 2 ^ k ≤ 2 ^ 32 by omega)

-- The data address has moved on by an amount. Under the mask it counts around,
-- above the mask and in all else nothing has changed.
structure MovedBy (d : Datapath) (k : Nat) (amount : Int) (after : Datapath) : Prop where
  counted : ((after.dataAddress &&& d.incrementMask).toNat : Int) =
    (d.dataAddress.toNat + amount) % 2 ^ k
  kept : after.dataAddress &&& ~~~d.incrementMask = d.dataAddress &&& ~~~d.incrementMask
  rest : after = { d with dataAddress := after.dataAddress }

namespace MovedBy

variable {d middle after other : Datapath} {k : Nat} {amount more : Int}

theorem mask (moved : d.MovedBy k amount after) : after.incrementMask = d.incrementMask := by
  rw [moved.rest]

theorem of_toNat (low : d.incrementMask.toNat = 2 ^ k - 1) {address : UInt32} {counted : Nat}
    (value : address.toNat = 2 ^ k * (d.dataAddress.toNat / 2 ^ k) + counted % 2 ^ k)
    (same : (counted : Int) % 2 ^ k = (d.dataAddress.toNat + amount) % 2 ^ k) :
    d.MovedBy k amount { d with dataAddress := address } := by
  have positive := Nat.two_pow_pos k
  have short : counted % 2 ^ k < 2 ^ k := Nat.mod_lt _ positive
  refine ⟨?_, ?_, rfl⟩
  · rw [toNat_and_mask low, value, Nat.mul_add_mod, Nat.mod_mod, ← same]
    push_cast
    rfl
  · apply UInt32.toNat_inj.mp
    have wide := le_of_lowMask low
    rw [toNat_and_not_mask low wide, toNat_and_not_mask low wide, value,
      Nat.mul_add_div positive, Nat.div_eq_of_lt short, Nat.add_zero]

theorem refl (low : d.incrementMask.toNat = 2 ^ k - 1) : d.MovedBy k 0 d := by
  refine ⟨?_, rfl, rfl⟩
  rw [toNat_and_mask low, Int.add_zero]
  push_cast
  rfl

theorem stepUp (low : d.incrementMask.toNat = 2 ^ k - 1) : d.MovedBy k 1 d.stepUp :=
  of_toNat low (toNat_stepUp (le_of_lowMask low) low) (by push_cast; rfl)

theorem stepDown (low : d.incrementMask.toNat = 2 ^ k - 1) : d.MovedBy k (-1) d.stepDown := by
  refine of_toNat low (toNat_stepDown (le_of_lowMask low) low) ?_
  have around : ((d.dataAddress.toNat + (2 ^ k - 1) : Nat) : Int) =
      d.dataAddress.toNat + -1 + 2 ^ k := by
    have positive := Nat.two_pow_pos k
    push_cast [Nat.cast_sub (show 1 ≤ 2 ^ k from positive)]
    ring
  rw [around, Int.add_emod_right]

theorem trans (low : d.incrementMask.toNat = 2 ^ k - 1) (first : d.MovedBy k amount middle)
    (second : middle.MovedBy k more after) : d.MovedBy k (amount + more) after := by
  obtain ⟨counted, kept, rest⟩ := second
  rw [first.mask] at counted kept
  refine ⟨?_, kept.trans first.kept, ?_⟩
  · have reached := first.counted
    rw [toNat_and_mask low] at reached
    push_cast at reached
    rw [counted, Int.add_emod, reached, ← Int.add_emod, Int.add_assoc]
  · rw [rest, first.rest]

theorem eq_iff (low : d.incrementMask.toNat = 2 ^ k - 1) (first : d.MovedBy k amount after)
    (second : d.MovedBy k more other) : after = other ↔ amount ≡ more [ZMOD 2 ^ k] := by
  have cancel : amount ≡ more [ZMOD 2 ^ k] ↔
      (d.dataAddress.toNat + amount) % 2 ^ k = (d.dataAddress.toNat + more) % 2 ^ k :=
    ⟨Int.ModEq.add_left _, Int.ModEq.add_left_cancel' _⟩
  rw [cancel, ← first.counted, ← second.counted]
  constructor
  · rintro rfl
    rfl
  · intro under
    have there : after.dataAddress = other.dataAddress := by
      refine eq_of_and_mask_eq low (le_of_lowMask low) ?_ (first.kept.trans second.kept.symm)
      exact UInt32.toNat_inj.mp (Int.ofNat_inj.mp under)
    rw [first.rest, second.rest, there]

end MovedBy

inductive Move where
  | up
  | down
  deriving DecidableEq

def Move.amount : Move → Int
  | .up => 1
  | .down => -1

def move (d : Datapath) : Move → Datapath
  | .up => d.stepUp
  | .down => d.stepDown

def follow (d : Datapath) (moves : List Move) : Datapath :=
  moves.foldl move d

variable {d : Datapath} {k : Nat}

theorem movedBy_move (low : d.incrementMask.toNat = 2 ^ k - 1) (one : Move) :
    d.MovedBy k one.amount (d.move one) := by
  cases one with
  | up => exact .stepUp low
  | down => exact .stepDown low

theorem movedBy_follow (low : d.incrementMask.toNat = 2 ^ k - 1) (moves : List Move) :
    d.MovedBy k (moves.map Move.amount).sum (d.follow moves) := by
  induction moves generalizing d with
  | nil => exact .refl low
  | cons one rest ih =>
    have first := movedBy_move low one
    rw [List.map_cons, List.sum_cons]
    exact first.trans low (ih (first.mask ▸ low))

theorem sum_amounts (moves : List Move) :
    (moves.map Move.amount).sum = (moves.count .up : Int) - moves.count .down := by
  induction moves with
  | nil => rfl
  | cons one rest ih =>
    rw [List.map_cons, List.sum_cons, ih]
    cases one <;> simp [Move.amount] <;> ring

theorem follow_replicate (one : Move) (n : Nat) (d : Datapath) :
    d.follow (List.replicate n one) = (fun d : Datapath => d.move one)^[n] d := by
  induction n generalizing d with
  | zero => rfl
  | succ n ih => exact ih (d.move one)

structure StepsUnderMask (d : Datapath) (k : Nat) : Prop where
  ups : ∀ n : Nat, d.MovedBy k n (stepUp^[n] d)
  downs : ∀ n : Nat, d.MovedBy k (-n) (stepDown^[n] d)
  downUndoesUp : d.stepUp.stepDown = d
  upUndoesDown : d.stepDown.stepUp = d
  -- Only the difference of the steps up and down is seen, and of it only what is
  -- left behind whole rounds.
  anyOrder : ∀ one two : List Move, d.follow one = d.follow two ↔
    (one.count .up : Int) - one.count .down ≡ two.count .up - two.count .down [ZMOD 2 ^ k]

theorem steps_under_mask (low : d.incrementMask.toNat = 2 ^ k - 1) : d.StepsUnderMask k := by
  have counts := fun moves => sum_amounts moves ▸ movedBy_follow low moves
  have anyOrder : ∀ one two : List Move, d.follow one = d.follow two ↔
      (one.count .up : Int) - one.count .down ≡ two.count .up - two.count .down [ZMOD 2 ^ k] :=
    fun one two => (counts one).eq_iff low (counts two)
  refine ⟨fun n => ?_, fun n => ?_, ?_, ?_, anyOrder⟩
  · have moved := counts (List.replicate n .up)
    rw [follow_replicate] at moved
    simpa [List.count_replicate, move] using moved
  · have moved := counts (List.replicate n .down)
    rw [follow_replicate] at moved
    simpa [List.count_replicate, move] using moved
  · exact (anyOrder [.up, .down] []).mpr rfl
  · exact (anyOrder [.down, .up] []).mpr rfl

theorem steps_under_mask_wrapped :
    let bank : Datapath := { dataAddress := 0x12FFFF, incrementMask := bankMask }
    let banks : Datapath := { dataAddress := 0xAB000000, incrementMask := addressMask }
    bank.incrementMask.toNat = 2 ^ 16 - 1 ∧ bank.StepsUnderMask 16 ∧
      banks.incrementMask.toNat = 2 ^ 24 - 1 ∧ banks.StepsUnderMask 24 ∧
      bank.stepUp.dataAddress = 0x120000 ∧ banks.stepDown.dataAddress = 0xABFFFFFF := by
  intro bank banks
  exact ⟨rfl, steps_under_mask rfl, rfl, steps_under_mask rfl, by decide, by decide⟩

end Datapath

end Microcode
