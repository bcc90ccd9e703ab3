import Microcode.Processor.Construct
import Microcode.Processor.Transfer
import Microcode.Program.OfMode

namespace Microcode

structure Datapath.LooksLike (d e : Datapath) : Prop where
  registers : d.registers = e.registers
  instructionBuffer : d.instructionBuffer = e.instructionBuffer
  dataBuffer : d.dataBuffer = e.dataBuffer

-- Whether a program has settled the data address with its mask, and the address
-- of the dummy read.
structure Known where
  address : Bool
  uncorrected : Bool

def Known.nothing : Known := ⟨false, false⟩

def BusCycle.ready (k : Known) : BusCycle → Bool
  | .fetchData | .fetchDataUp | .idleData | .storeData | .storeDataUp | .storeDataDown
  | .rewriteData => k.address
  | .idleUncorrected => k.uncorrected
  | _ => true

def Construction.learn (k : Known) : Construction → Known
  | .absoluteIndexed _ _ | .directIndirectIndexed _ => ⟨true, true⟩
  | _ => { k with address := true }

namespace MicroOp

def ready (k : Known) : MicroOp → Bool
  | .cycle c => c.ready k
  | _ => true

def learn (k : Known) : MicroOp → Known
  | .construct c => c.learn k
  | _ => k

end MicroOp

def Program.ready : Known → Program → Bool
  | _, [] => true
  | k, u :: rest => u.ready k && ready (u.learn k) rest

theorem AddressingMode.program_ready (mode : AddressingMode) (access : Access) (width : Width) :
    Program.ready .nothing (mode.program access width) = true := by
  cases mode <;> cases access <;> cases width <;> rfl

structure Datapath.Agrees (k : Known) (d e : Datapath) : Prop extends d.LooksLike e where
  address : k.address = true → d.dataAddress = e.dataAddress ∧ d.incrementMask = e.incrementMask
  uncorrected : k.uncorrected = true → d.uncorrected = e.uncorrected

structure State.Agrees (k : Known) (s t : State) : Prop extends
    s.toDatapath.Agrees k t.toDatapath where
  skipNext : s.skipNext = t.skipNext

inductive SameOutcome {α : Type} (same : α → α → Prop) : Except Fault α → Except Fault α → Prop where
  | ok {one two : α} : same one two → SameOutcome same (.ok one) (.ok two)
  | error {cause : Fault} : SameOutcome same (.error cause) (.error cause)

theorem SameOutcome.map {α : Type} {same : α → α → Prop} {x y : Except Fault α} {f : α → α}
    (outcome : SameOutcome same x y) (keeps : ∀ {one two}, same one two → same (f one) (f two)) :
    SameOutcome same (x.map f) (y.map f) := by
  cases outcome with
  | ok agrees => exact .ok (keeps agrees)
  | error => exact .error

namespace Datapath.Agrees

variable {k : Known} {d e : Datapath}

theorem pushOperand (agrees : d.Agrees k e) (byte : UInt8) :
    SameOutcome (Datapath.Agrees k) (d.pushOperand byte) (e.pushOperand byte) := by
  unfold Datapath.pushOperand
  rw [agrees.instructionBuffer]
  cases e.instructionBuffer.push byte with
  | error cause => exact .error
  | ok b => exact .ok { agrees with instructionBuffer := rfl }

theorem pushData (agrees : d.Agrees k e) (byte : UInt8) :
    SameOutcome (Datapath.Agrees k) (d.pushData byte) (e.pushData byte) := by
  unfold Datapath.pushData
  rw [agrees.dataBuffer]
  cases e.dataBuffer.push byte with
  | error cause => exact .error
  | ok b => exact .ok { agrees with dataBuffer := rfl }

theorem nextOperand (agrees : d.Agrees k e) : d.nextOperand.Agrees k e.nextOperand :=
  { agrees with registers := by simp only [Datapath.nextOperand, agrees.registers] }

theorem descendStack (agrees : d.Agrees k e) : d.descendStack.Agrees k e.descendStack :=
  { agrees with registers := by simp only [Datapath.descendStack, agrees.registers] }

theorem stepUp (agrees : d.Agrees k e) : d.stepUp.Agrees k e.stepUp :=
  { agrees with
    address := by
      intro known
      obtain ⟨address, mask⟩ := agrees.address known
      simp only [Datapath.stepUp, address, mask, and_self] }

theorem stepDown (agrees : d.Agrees k e) : d.stepDown.Agrees k e.stepDown :=
  { agrees with
    address := by
      intro known
      obtain ⟨address, mask⟩ := agrees.address known
      simp only [Datapath.stepDown, address, mask, and_self] }

theorem withDataBuffer (agrees : d.Agrees k e) (b : Buffer) :
    Agrees k { d with dataBuffer := b } { e with dataBuffer := b } :=
  { agrees with dataBuffer := rfl }

theorem withDataAddress (agrees : d.Agrees k e) (address : UInt32) :
    Agrees k { d with dataAddress := address } { e with dataAddress := address } :=
  { agrees with address := fun known => ⟨rfl, (agrees.address known).2⟩ }

theorem sourceAddress (agrees : d.Agrees k e) : d.sourceAddress = e.sourceAddress := by
  simp only [Datapath.sourceAddress, agrees.registers, agrees.instructionBuffer]

theorem destinationAddress (agrees : d.Agrees k e) : d.destinationAddress = e.destinationAddress := by
  simp only [Datapath.destinationAddress, agrees.registers, agrees.instructionBuffer]

theorem clearBuffers (agrees : d.Agrees k e) : d.clearBuffers.Agrees k e.clearBuffers :=
  { agrees with instructionBuffer := rfl, dataBuffer := rfl }

theorem weaken (agrees : d.Agrees k e) : d.Agrees .nothing e where
  toLooksLike := agrees.toLooksLike
  address := nofun
  uncorrected := nofun

end Datapath.Agrees

inductive Transfer.Agrees (k : Known) : Transfer → Transfer → Prop where
  | fetch {address : UInt32} {one two : UInt8 → Except Fault Datapath} :
      (∀ byte, SameOutcome (Datapath.Agrees k) (one byte) (two byte)) →
        Agrees k (.fetch address one) (.fetch address two)
  | store {address : UInt32} {byte : UInt8} {d e : Datapath} :
      d.Agrees k e → Agrees k (.store address byte d) (.store address byte e)
  | refused {cause : Fault} {d e : Datapath} :
      d.Agrees k e → Agrees k (.refused cause d) (.refused cause e)

section

variable {k : Known} {d e : Datapath}

theorem Datapath.Agrees.storeLowest (agrees : d.Agrees k e) (address : UInt32)
    {settle : Datapath → Datapath} (keeps : ∀ {d e}, d.Agrees k e → (settle d).Agrees k (settle e)) :
    Transfer.Agrees k (d.storeLowest address settle) (e.storeLowest address settle) := by
  unfold Datapath.storeLowest
  rw [agrees.dataBuffer]
  exact .store (keeps (agrees.withDataBuffer _))

theorem Datapath.Agrees.storeHighest (agrees : d.Agrees k e) (address : UInt32)
    {settle : Datapath → Datapath} (keeps : ∀ {d e}, d.Agrees k e → (settle d).Agrees k (settle e)) :
    Transfer.Agrees k (d.storeHighest address settle) (e.storeHighest address settle) := by
  unfold Datapath.storeHighest
  rw [agrees.dataBuffer]
  split
  · exact .store (keeps (agrees.withDataBuffer _))
  · exact .refused (agrees.withDataBuffer _)

theorem BusCycle.transfer_agrees {c : BusCycle} (ready : c.ready k = true) (agrees : d.Agrees k e) :
    Transfer.Agrees k (c.transfer d) (c.transfer e) := by
  cases c with
  | fetchOperand =>
    rw [transfer, transfer, agrees.registers]
    exact .fetch fun byte => (agrees.pushOperand byte).map (·.nextOperand)
  | fetchLastOperand =>
    rw [transfer, transfer, agrees.registers]
    exact .fetch agrees.pushOperand
  | idleProgram | idleStack =>
    rw [transfer, transfer, agrees.registers]
    exact .fetch fun _ => .ok agrees
  | fetchData =>
    rw [transfer, transfer, (agrees.address ready).1]
    exact .fetch agrees.pushData
  | fetchDataUp =>
    rw [transfer, transfer, (agrees.address ready).1]
    exact .fetch fun byte => (agrees.pushData byte).map (·.stepUp)
  | idleData =>
    rw [transfer, transfer, (agrees.address ready).1]
    exact .fetch fun _ => .ok agrees
  | idleUncorrected =>
    rw [transfer, transfer, agrees.uncorrected ready]
    exact .fetch fun _ => .ok agrees
  | storeData =>
    rw [transfer, transfer, (agrees.address ready).1]
    exact agrees.storeLowest _ id
  | storeDataUp =>
    rw [transfer, transfer, (agrees.address ready).1]
    exact agrees.storeLowest _ (·.stepUp)
  | storeDataDown =>
    rw [transfer, transfer, (agrees.address ready).1]
    exact agrees.storeHighest _ (·.stepDown)
  | rewriteData =>
    rw [transfer, transfer, (agrees.address ready).1, agrees.dataBuffer]
    exact .store agrees
  | push =>
    rw [transfer, transfer, agrees.registers]
    exact agrees.storeHighest _ (·.descendStack)
  | fetchSource =>
    rw [transfer, transfer, agrees.sourceAddress]
    exact .fetch (agrees.withDataAddress _).pushData
  | storeDestination =>
    rw [transfer, transfer, agrees.destinationAddress]
    exact (agrees.withDataAddress _).storeLowest _ id
  | idleDestination =>
    rw [transfer, transfer, agrees.destinationAddress]
    exact .fetch fun _ => .ok agrees

theorem Copy.apply_agrees (c : Copy) (width : Width) (agrees : d.Agrees k e) :
    (c.apply width d).Agrees k (c.apply width e) := by
  cases c with
  | pcToData | programBankToData | accumulatorToData =>
    exact { agrees with dataBuffer := by simp only [apply, agrees.registers] }
  | instructionToData => exact { agrees with dataBuffer := agrees.instructionBuffer }
  | dataToAccumulator =>
    exact { agrees with registers := by simp only [apply, agrees.registers, agrees.dataBuffer] }

end

namespace State.Agrees

variable {k : Known} {s t : State}

theorem withDatapath {known : Known} {d e : Datapath} (agrees : s.Agrees k t)
    (after : d.Agrees known e) :
    (s.withDatapath d).Agrees known (t.withDatapath e) :=
  ⟨after, agrees.skipNext⟩

theorem aim (agrees : s.Agrees k t) (address mask : UInt32) :
    (s.aim address mask).Agrees { k with address := true } (t.aim address mask) :=
  { agrees with address := fun _ => ⟨rfl, rfl⟩ }

theorem dropPointer (agrees : s.Agrees k t) : s.dropPointer.Agrees k t.dropPointer :=
  ⟨agrees.withDataBuffer _, agrees.skipNext⟩

theorem aimDirect (agrees : s.Agrees k t) (offset : UInt16) :
    (s.aimDirect offset).Agrees { k with address := true } (t.aimDirect offset) := by
  unfold State.aimDirect
  rw [agrees.registers, agrees.instructionBuffer]
  exact ⟨(agrees.aim _ _).toAgrees, rfl⟩

theorem aimIndexed (agrees : s.Agrees k t) (base : UInt32) (index : Index) (elide : Bool) :
    (s.aimIndexed base index elide).Agrees ⟨true, true⟩ (t.aimIndexed base index elide) := by
  unfold State.aimIndexed
  rw [agrees.registers]
  exact { agrees with address := fun _ => ⟨rfl, rfl⟩, uncorrected := fun _ => rfl, skipNext := rfl }

end State.Agrees

theorem Construction.apply_agrees {k : Known} {s t : State} (c : Construction) (agrees : s.Agrees k t) :
    SameOutcome (State.Agrees (c.learn k)) (c.apply s) (c.apply t) := by
  have pointer := agrees.dropPointer
  simp only [apply, agrees.registers, agrees.instructionBuffer, agrees.dataBuffer]
  cases c with
  | absolute | absoluteBankZero | absoluteLong | absoluteLongX | stackRelative =>
    exact .ok (agrees.aim _ _)
  | absoluteIndexed => exact .ok (agrees.aimIndexed _ _ _)
  | direct | directIndexed | directIndexedIndirect => exact .ok (agrees.aimDirect _)
  | directIndirect | directIndirectLong | directIndirectLongIndexed => exact .ok (pointer.aim _ _)
  | directIndirectIndexed => exact .ok (pointer.aimIndexed _ _ _)
  | absoluteIndexedIndirect =>
    cases addIndex t.instructionBuffer.value t.registers.x with
    | error cause => exact .error
    | ok sum => exact .ok (agrees.aim _ _)
  | stackRelativeIndirectIndexed =>
    cases addIndex (inBank t.registers.dataBank t.dataBuffer.value.toUInt16) t.registers.y with
    | error cause => exact .error
    | ok sum => exact .ok (pointer.aim _ _)

end Microcode
