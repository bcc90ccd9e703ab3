import Microcode.Bench.Reference
import Microcode.Proofs.Mode.Prelude

namespace Microcode

def Buffer.result (b : Buffer) (width : Width) : List UInt8 :=
  match width with
  | .eight => [b.lowest]
  | .sixteen => [b.lowest, (b.value >>> 8).toUInt8]

def Event.stores (space : AddressSpace) (address : Nat → UInt32) (bytes : List UInt8) : List Event :=
  bytes.mapIdx fun i byte => .store space (address i) byte

theorem Event.stores_result_eight (address : Nat → UInt32) (b : Buffer) :
    stores .data address (b.result .eight) = [.store .data (address 0) b.lowest] := rfl

theorem Event.stores_result_sixteen (address : Nat → UInt32) (b : Buffer) :
    stores .data address (b.result .sixteen) =
      [.store .data (address 0) b.lowest, .store .data (address 1) (b.value >>> 8).toUInt8] := rfl

def KeepsAddress (ε : Type) [Executor ε] (operation : Operation) (width : Width) : Prop :=
  ∀ (e : ε) (s : State),
    (Executor.perform e operation width s).datapath.dataAddress = s.dataAddress ∧
      (Executor.perform e operation width s).datapath.incrementMask = s.incrementMask

def LeavesResult (ε : Type) [Executor ε] (operation : Operation) (width : Width) : Prop :=
  ∀ (e : ε) (s : State),
    (Executor.perform e operation width s).datapath.dataBuffer.size = width.bytes

theorem Bench.Reference.keepsAddress (operation : Operation) (width : Width) :
    KeepsAddress Bench.Reference operation width := by
  intro e s
  cases operation with
  | mvn | mvp =>
    simp only [Executor.perform, effect, nextByte]
    split <;> exact ⟨rfl, rfl⟩
  | _ => exact ⟨rfl, rfl⟩

namespace Program

def resultStoresDown : Width → Program
  | .eight => [.cycle .storeData]
  | .sixteen => [.cycle .storeDataDown, .cycle .storeData]

end Program

namespace AddressingMode

theorem finale_of_isModify {mode : AddressingMode} (modifies : mode.isModify) (access : Access)
    (width : Width) : mode.finale access width = Program.resultStoresDown width := by
  cases mode <;> first | (cases access <;> cases width <;> rfl) | cases modifies

end AddressingMode

namespace Buffer

theorem takeHighest_of_two {b : Buffer} (two : b.size = 2) :
    b.takeHighest = (.ok (b.value >>> 8).toUInt8, ofValue b.value 1) := by
  have fewer : b.fewer = 1 := by
    rw [Buffer.fewer, two]
    rfl
  rw [takeHighest, fewer]
  rfl

theorem lowest_ofValue (value : UInt32) : (ofValue value 1).lowest = value.toUInt8 := by
  apply UInt8.toNat_inj.mp
  rw [lowest, UInt32.toNat_toUInt8, ofValue_toNat (by decide), UInt32.toNat_toUInt8]
  exact Nat.mod_mod _ _

end Buffer

namespace Yields

variable (operation : Operation) (width : Width) {s : State} {w : Wrap} {A : Nat}

-- Both directions wrap at the same place, so the low byte goes to the address from
-- which it came.
theorem resultStoresDown (inside : A < w.size) (clear : s.skipNext = false)
    (address : s.dataAddress = .ofNat ((A + (width.bytes.toNat - 1)) % w.size))
    (mask : s.incrementMask = w.mask) (held : s.dataBuffer.size = width.bytes) :
    Yields operation width (Program.resultStoresDown width) s fun calls after =>
      calls = (Event.stores .data (fun i => .ofNat ((A + i) % w.size))
          (s.dataBuffer.result width)).reverse ∧
        after.dataAddress = .ofNat A := by
  have small : A < 0x1000000 := Nat.lt_of_lt_of_le inside (by cases w <;> decide)
  have first : (A + 0) % w.size = A := Nat.mod_eq_of_lt inside
  cases width with
  | eight =>
    have here : s.dataAddress = .ofNat A := address.trans (congrArg _ first)
    refine store clear rfl (.nil ⟨?_, here⟩)
    rw [Event.stores_result_eight, first, here]
    rfl
  | sixteen =>
    have last : s.dataAddress = .ofNat (w.after A 1) := by
      rw [address, Wrap.after_of_lt inside]
      rfl
    let rest : Datapath := { s.toDatapath with dataBuffer := .ofValue s.dataBuffer.value 1 }
    have down : rest.stepDown = { rest with dataAddress := .ofNat A } :=
      Datapath.stepDown_ofNat small last mask
    have asks : BusCycle.storeDataDown.transfer s.toDatapath =
        .store s.dataAddress (s.dataBuffer.value >>> 8).toUInt8 { rest with dataAddress := .ofNat A } := by
      simp only [BusCycle.transfer, Datapath.storeHighest, Buffer.takeHighest_of_two held]
      rw [← down]
    have low : (Buffer.ofValue s.dataBuffer.value 1).lowest = s.dataBuffer.lowest :=
      Buffer.lowest_ofValue _
    refine store clear asks (store clear rfl (.nil ⟨?_, rfl⟩))
    rw [Event.stores_result_sixteen, first, last, Wrap.after_of_lt inside, ← low]
    rfl

end Yields

end Microcode
