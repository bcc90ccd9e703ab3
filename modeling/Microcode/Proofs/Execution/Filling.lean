import Microcode.Proofs.Execution.Marker
import Microcode.Proofs.Processor.Sums

namespace Microcode

structure Filling where
  operand : Nat
  data : Nat
  operand_le : operand ≤ 3
  data_le : data ≤ 4

namespace Filling

def empty : Filling := ⟨0, 0, Nat.zero_le _, Nat.zero_le _⟩

def moreOperand? (f : Filling) : Option Filling :=
  if room : f.operand < 3 then some { f with operand := f.operand + 1, operand_le := room } else none

def moreData? (f : Filling) : Option Filling :=
  if room : f.data < 4 then some { f with data := f.data + 1, data_le := room } else none

theorem moreOperand?_eq_some {f after : Filling} (fits : f.moreOperand? = some after) :
    f.operand < 3 ∧ after.operand = f.operand + 1 ∧ after.data = f.data := by
  rw [moreOperand?, Option.dite_none_right_eq_some] at fits
  obtain ⟨room, same⟩ := fits
  cases same
  exact ⟨room, rfl, rfl⟩

theorem moreData?_eq_some {f after : Filling} (fits : f.moreData? = some after) :
    f.data < 4 ∧ after.operand = f.operand ∧ after.data = f.data + 1 := by
  rw [moreData?, Option.dite_none_right_eq_some] at fits
  obtain ⟨room, same⟩ := fits
  cases same
  exact ⟨room, rfl, rfl⟩

def lessPointer? (f : Filling) : Option Filling :=
  if f.data ≤ 3 then some { f with data := 0, data_le := Nat.zero_le _ } else none

end Filling

-- The filling behind a micro-op, if there is room for what it brings. The bounds
-- ignore that a cycle may be elided and that bytes are taken out again. What an
-- executor leaves fills the data buffer at worst.
def MicroOp.fill? (f : Filling) : MicroOp → Option Filling
  | .cycle .fetchOperand | .cycle .fetchLastOperand => f.moreOperand?
  | .cycle .fetchData | .cycle .fetchDataUp | .cycle .fetchSource => f.moreData?
  | .cycle _ => some f
  | .construct .directIndirect | .construct (.directIndirectIndexed _)
  | .construct .directIndirectLong | .construct .directIndirectLongIndexed
  | .construct .stackRelativeIndirectIndexed => f.lessPointer?
  | .construct _ => some f
  | .copy .pcToData | .copy .accumulatorToData =>
    some { f with data := 2, data_le := by decide }
  | .copy .programBankToData => some { f with data := 1, data_le := by decide }
  | .copy .instructionToData =>
    some { f with data := f.operand, data_le := Nat.le_succ_of_le f.operand_le }
  | .copy .dataToAccumulator => some f
  | .perform => some { f with data := 4, data_le := Nat.le_refl _ }
  | .endOfProgram => none

def Program.fill? (f : Filling) (p : Program) : Option Filling :=
  p.foldlM MicroOp.fill? f

theorem AddressingMode.program_fits (mode : AddressingMode) (access : Access) (width : Width) :
    (Program.fill? .empty (mode.program access width)).isSome = true := by
  cases mode <;> cases access <;> cases width <;> decide

theorem Program.fill?_cons_iff {f after : Filling} {u : MicroOp} {rest : Program} :
    Program.fill? f (u :: rest) = some after ↔
      ∃ middle, u.fill? f = some middle ∧ Program.fill? middle rest = some after := by
  simp only [Program.fill?, List.foldlM_cons, Option.bind_eq_bind, Option.bind_eq_some_iff]

theorem AddressingMode.fits_of_split {mode : AddressingMode} {access : Access} {width : Width}
    {behind ahead : Program} (split : mode.program access width = behind ++ ahead) :
    ∃ middle after, Program.fill? .empty behind = some middle ∧
      Program.fill? middle ahead = some after := by
  have fits := mode.program_fits access width
  obtain ⟨after, whole⟩ := Option.isSome_iff_exists.mp fits
  rw [split, Program.fill?, List.foldlM_append, Option.bind_eq_bind,
    Option.bind_eq_some_iff] at whole
  obtain ⟨middle, front, back⟩ := whole
  exact ⟨middle, after, front, back⟩

theorem AddressingMode.fits_of_place {mode : AddressingMode} {access : Access} {width : Width}
    {behind ahead : Program} {u : MicroOp} (split : mode.program access width = behind ++ u :: ahead) :
    ∃ middle after, Program.fill? .empty behind = some middle ∧ u.fill? middle = some after := by
  obtain ⟨middle, last, before, later⟩ := AddressingMode.fits_of_split split
  obtain ⟨after, fits, -⟩ := Program.fill?_cons_iff.mp later
  exact ⟨middle, after, before, fits⟩

structure Datapath.Fills (d : Datapath) (f : Filling) : Prop where
  operand : d.instructionBuffer.Within f.operand
  data : d.dataBuffer.Within f.data

theorem State.Fresh.fills {s : State} (fresh : s.Fresh) : s.toDatapath.Fills .empty := by
  rw [fresh]
  exact ⟨Buffer.within_empty 0, Buffer.within_empty 0⟩

namespace Datapath.Fills

variable {d : Datapath} {f after : Filling}

theorem mono (fills : d.Fills f) (operand : f.operand ≤ after.operand) (data : f.data ≤ after.data) :
    d.Fills after :=
  ⟨fills.operand.mono operand, fills.data.mono data⟩

theorem pushOperand (fills : d.Fills f) (fits : f.moreOperand? = some after) (byte : UInt8) :
    ∃ held, d.pushOperand byte = .ok { d with instructionBuffer := held } ∧
      ({ d with instructionBuffer := held } : Datapath).Fills after := by
  obtain ⟨room, operand, data⟩ := Filling.moreOperand?_eq_some fits
  obtain ⟨held, pushed, within⟩ := fills.operand.push (Nat.lt_succ_of_lt room) byte
  exact ⟨held, by rw [Datapath.pushOperand, pushed]; rfl, operand ▸ within, data ▸ fills.data⟩

theorem pushData (fills : d.Fills f) (fits : f.moreData? = some after) (byte : UInt8) :
    ∃ held, d.pushData byte = .ok { d with dataBuffer := held } ∧
      ({ d with dataBuffer := held } : Datapath).Fills after := by
  obtain ⟨room, operand, data⟩ := Filling.moreData?_eq_some fits
  obtain ⟨held, pushed, within⟩ := fills.data.push room byte
  exact ⟨held, by rw [Datapath.pushData, pushed]; rfl, operand ▸ fills.operand, data ▸ within⟩

end Datapath.Fills

def Transfer.Leaves (post : Datapath → Prop) : Transfer → Prop
  | .fetch _ absorb => ∀ byte, ∃ after, absorb byte = .ok after ∧ post after
  | .store _ _ after => post after
  | .refused _ _ => False

namespace Datapath

variable {d : Datapath} {f : Filling}

theorem storeLowest_leaves (fills : d.Fills f) (address : UInt32) {settle : Datapath → Datapath}
    {post : Datapath → Prop}
    (settles : ∀ rest, ({ d with dataBuffer := rest } : Datapath).Fills f →
      post (settle { d with dataBuffer := rest })) :
    (d.storeLowest address settle).Leaves post :=
  settles _ ⟨fills.operand, fills.data.takeLowest f.data_le⟩

theorem storeHighest_leaves (fills : d.Fills f) (address : UInt32) {settle : Datapath → Datapath}
    {post : Datapath → Prop}
    (settles : ∀ rest, ({ d with dataBuffer := rest } : Datapath).Fills f →
      post (settle { d with dataBuffer := rest })) :
    (d.storeHighest address settle).Leaves post := by
  obtain ⟨byte, rest, taken, within⟩ := fills.data.takeHighest f.data_le
  rw [storeHighest, taken]
  exact settles rest ⟨fills.operand, within⟩

end Datapath

theorem BusCycle.transfer_leaves {c : BusCycle} {f after : Filling}
    (fits : (MicroOp.cycle c).fill? f = some after) {d : Datapath} (fills : d.Fills f) :
    (c.transfer d).Leaves fun next => next.Fills after ∧ (d.Aimed → next.Aimed) := by
  cases c with
  | fetchOperand =>
    intro byte
    obtain ⟨held, pushed, filled⟩ := fills.pushOperand fits byte
    exact ⟨_, congrArg (Except.map _) pushed, ⟨filled.operand, filled.data⟩,
      fun aimed => ⟨aimed.address, aimed.mask, aimed.uncorrected⟩⟩
  | fetchLastOperand =>
    intro byte
    obtain ⟨held, pushed, filled⟩ := fills.pushOperand fits byte
    exact ⟨_, pushed, filled, fun aimed => ⟨aimed.address, aimed.mask, aimed.uncorrected⟩⟩
  | fetchData =>
    intro byte
    obtain ⟨held, pushed, filled⟩ := fills.pushData fits byte
    exact ⟨_, pushed, filled, fun aimed => aimed.withDataBuffer held⟩
  | fetchDataUp =>
    intro byte
    obtain ⟨held, pushed, filled⟩ := fills.pushData fits byte
    exact ⟨_, congrArg (Except.map _) pushed, ⟨filled.operand, filled.data⟩,
      fun aimed => (aimed.withDataBuffer held).stepUp⟩
  | fetchSource =>
    intro byte
    have moved : ({ d with dataAddress := d.sourceAddress } : Datapath).Fills f :=
      ⟨fills.operand, fills.data⟩
    obtain ⟨held, pushed, filled⟩ := moved.pushData fits byte
    exact ⟨_, pushed, filled, fun aimed => ⟨toNat_inBank_lt .., aimed.mask, aimed.uncorrected⟩⟩
  | idleProgram | idleData | idleUncorrected | idleStack | idleDestination =>
    cases fits
    exact fun byte => ⟨d, rfl, fills, id⟩
  | storeData =>
    cases fits
    exact Datapath.storeLowest_leaves fills _ fun rest filled =>
      ⟨filled, fun aimed => aimed.withDataBuffer rest⟩
  | storeDataUp =>
    cases fits
    exact Datapath.storeLowest_leaves fills _ fun rest filled =>
      ⟨⟨filled.operand, filled.data⟩, fun aimed => (aimed.withDataBuffer rest).stepUp⟩
  | storeDataDown =>
    cases fits
    exact Datapath.storeHighest_leaves fills _ fun rest filled =>
      ⟨⟨filled.operand, filled.data⟩, fun aimed => (aimed.withDataBuffer rest).stepDown⟩
  | rewriteData =>
    cases fits
    exact ⟨fills, id⟩
  | push =>
    cases fits
    exact Datapath.storeHighest_leaves fills _ fun rest filled =>
      ⟨⟨filled.operand, filled.data⟩, fun aimed => ⟨aimed.address, aimed.mask, aimed.uncorrected⟩⟩
  | storeDestination =>
    cases fits
    have moved : ({ d with dataAddress := d.destinationAddress } : Datapath).Fills f :=
      ⟨fills.operand, fills.data⟩
    exact Datapath.storeLowest_leaves moved _ fun rest filled =>
      ⟨filled, fun aimed => ⟨toNat_inBank_lt .., aimed.mask, aimed.uncorrected⟩⟩

namespace Construction

theorem sum_lt {c : Construction} {f after : Filling}
    (fits : (MicroOp.construct c).fill? f = some after) {s : State} (fills : s.toDatapath.Fills f) :
    c.sum s < 0x100000000 := by
  have operand : s.instructionBuffer.value.toNat < 256 ^ 3 :=
    (fills.operand.mono f.operand_le).value_lt
  have bank := s.registers.dataBank.toNat_lt
  have direct := s.registers.direct.toNat_lt
  have stack := s.registers.s.toNat_lt
  have x := s.registers.x.toNat_lt
  have y := s.registers.y.toNat_lt
  have index : ∀ i, (s.registers.index i).toNat < 2 ^ 16 := fun i => UInt16.toNat_lt _
  cases c with
  | absoluteIndexed i _ | directIndexed i =>
    have here := index i
    simp only [sum]
    omega
  | directIndirectLong | directIndirectLongIndexed =>
    rw [MicroOp.fill?, Filling.lessPointer?, Option.ite_none_right_eq_some] at fits
    have pointer : s.dataBuffer.value.toNat < 256 ^ 3 := (fills.data.mono fits.1).value_lt
    simp only [sum]
    omega
  | _ =>
    simp only [sum]
    omega

theorem addIndex_of_lt {base : UInt32} {index : UInt16}
    (reach : base.toNat + index.toNat < 0x100000000) :
    addIndex base index = .ok (base + index.toUInt32) :=
  if_pos reach

end Construction

namespace State

variable {s : State} {f after : Filling}

theorem aim_leaves (fills : s.toDatapath.Fills f) (address : UInt32) {mask : UInt32}
    (either : mask = bankMask ∨ mask = addressMask) :
    (s.aim address mask).toDatapath.Fills f ∧
      (s.toDatapath.Aimed → (s.aim address mask).toDatapath.Aimed) :=
  ⟨⟨fills.operand, fills.data⟩, fun aimed => aimed.setDataAddress address either⟩

theorem aimIndexed_leaves (fills : s.toDatapath.Fills f) (base : UInt32) (index : Index)
    (elide : Bool) :
    (s.aimIndexed base index elide).toDatapath.Fills f ∧
      (s.toDatapath.Aimed → (s.aimIndexed base index elide).toDatapath.Aimed) := by
  refine ⟨⟨fills.operand, fills.data⟩, fun aimed => ?_⟩
  let sum := (base + (s.registers.index index).toUInt32) &&& addressMask
  have there := aimed.setDataAddress sum (.inr rfl)
  have page : ((base &&& 0xffff00) ||| (sum &&& 0xff)).toNat < 2 ^ 24 := by
    rw [UInt32.toNat_or, UInt32.toNat_and, UInt32.toNat_and]
    exact Nat.or_lt_two_pow (Nat.and_lt_two_pow _ (by decide)) (Nat.and_lt_two_pow _ (by decide))
  exact ⟨there.address, there.mask, page⟩

theorem dropPointer_leaves (fills : s.toDatapath.Fills f) (fits : f.lessPointer? = some after) :
    s.dropPointer.toDatapath.Fills after ∧
      (s.toDatapath.Aimed → s.dropPointer.toDatapath.Aimed) := by
  rw [Filling.lessPointer?, Option.ite_none_right_eq_some] at fits
  obtain ⟨-, same⟩ := fits
  cases same
  exact ⟨⟨fills.operand, Buffer.within_empty 0⟩, fun aimed => aimed.withDataBuffer .empty⟩

end State

theorem Construction.apply_leaves {c : Construction} {f after : Filling}
    (fits : (MicroOp.construct c).fill? f = some after) {s : State} (fills : s.toDatapath.Fills f) :
    ∃ next, c.apply s = .ok next ∧ next.toDatapath.Fills after ∧
      (s.toDatapath.Aimed → next.toDatapath.Aimed) := by
  have reach := Construction.sum_lt fits fills
  cases c with
  | absolute | absoluteLong | absoluteLongX =>
    cases fits
    exact ⟨_, rfl, State.aim_leaves fills _ (.inr rfl)⟩
  | absoluteBankZero | direct | directIndexed | directIndexedIndirect | stackRelative =>
    cases fits
    exact ⟨_, rfl, State.aim_leaves fills _ (.inl rfl)⟩
  | absoluteIndexed index elide =>
    cases fits
    exact ⟨_, rfl, State.aimIndexed_leaves fills _ index elide⟩
  | absoluteIndexedIndirect =>
    cases fits
    rw [apply, addIndex_of_lt reach]
    exact ⟨_, rfl, State.aim_leaves fills _ (.inl rfl)⟩
  | directIndirect | directIndirectLong | directIndirectLongIndexed =>
    obtain ⟨dropped, kept⟩ := State.dropPointer_leaves fills fits
    obtain ⟨filled, aims⟩ := State.aim_leaves dropped _ (.inr rfl)
    exact ⟨_, rfl, filled, fun aimed => aims (kept aimed)⟩
  | directIndirectIndexed elide =>
    obtain ⟨dropped, kept⟩ := State.dropPointer_leaves fills fits
    obtain ⟨filled, aims⟩ := State.aimIndexed_leaves dropped _ .y elide
    exact ⟨_, rfl, filled, fun aimed => aims (kept aimed)⟩
  | stackRelativeIndirectIndexed =>
    obtain ⟨dropped, kept⟩ := State.dropPointer_leaves fills fits
    obtain ⟨filled, aims⟩ := State.aim_leaves dropped _ (.inr rfl)
    have low : (inBank s.registers.dataBank s.dataBuffer.value.toUInt16).toNat +
        s.registers.y.toNat < 0x100000000 := by
      rw [toNat_inBank, UInt32.toNat_toUInt16]
      exact reach
    rw [apply, addIndex_of_lt low]
    exact ⟨_, rfl, filled, fun aimed => aims (kept aimed)⟩

theorem Copy.apply_leaves {c : Copy} {f after : Filling}
    (fits : (MicroOp.copy c).fill? f = some after) (width : Width) {d : Datapath}
    (fills : d.Fills f) :
    (c.apply width d).Fills after ∧ (d.Aimed → (c.apply width d).Aimed) := by
  cases c with
  | pcToData =>
    cases fits
    have within : (Buffer.ofValue d.registers.pc.toUInt32 2).Within 2 :=
      Buffer.within_ofValue _ (by decide)
    exact ⟨⟨fills.operand, within⟩, fun aimed => aimed.withDataBuffer _⟩
  | programBankToData =>
    cases fits
    have within : (Buffer.ofValue d.registers.programBank.toUInt32 1).Within 1 :=
      Buffer.within_ofValue _ (by decide)
    exact ⟨⟨fills.operand, within⟩, fun aimed => aimed.withDataBuffer _⟩
  | accumulatorToData =>
    cases fits
    have few : width.bytes.toNat ≤ 2 := by cases width <;> decide
    have within := Buffer.within_ofValue (d.registers.a &&& width.mask).toUInt32
      (Nat.lt_of_le_of_lt few (by decide))
    exact ⟨⟨fills.operand, within.mono few⟩, fun aimed => aimed.withDataBuffer _⟩
  | instructionToData =>
    cases fits
    exact ⟨⟨fills.operand, fills.operand⟩, fun aimed => aimed.withDataBuffer _⟩
  | dataToAccumulator =>
    cases fits
    exact ⟨⟨fills.operand, fills.data⟩, fun aimed => ⟨aimed.address, aimed.mask, aimed.uncorrected⟩⟩

theorem Run.cycle_leaves {β ε : Type} [Bus β] {c : BusCycle} {post : Datapath → Prop} {r : Run β ε}
    (leaves : (c.transfer r.state.toDatapath).Leaves post) :
    ∃ next, r.cycle c = (.next, next) ∧ post next.state.toDatapath := by
  rw [cycle]
  cases asks : c.transfer r.state.toDatapath with
  | fetch address absorb =>
    rw [asks] at leaves
    obtain ⟨next, taken, holds⟩ := leaves (Bus.fetch r.bus c.space address).1
    simp only [taken]
    exact ⟨_, rfl, holds⟩
  | store address byte next =>
    rw [asks] at leaves
    exact ⟨_, rfl, leaves⟩
  | refused cause next =>
    rw [asks] at leaves
    exact leaves.elim

theorem BusCycle.fill?_grows {c : BusCycle} {f after : Filling}
    (fits : (MicroOp.cycle c).fill? f = some after) :
    f.operand ≤ after.operand ∧ f.data ≤ after.data := by
  cases c with
  | fetchOperand | fetchLastOperand =>
    obtain ⟨-, operand, data⟩ := Filling.moreOperand?_eq_some fits
    omega
  | fetchData | fetchDataUp | fetchSource =>
    obtain ⟨-, operand, data⟩ := Filling.moreData?_eq_some fits
    omega
  | _ =>
    cases fits
    exact ⟨Nat.le_refl _, Nat.le_refl _⟩

section

variable {β ε : Type} [Bus β] [Executor ε] {operation : Operation} {width : Width}
  {f after : Filling}

theorem Run.step_leaves {u : MicroOp} (own : u ≠ .perform)
    (fits : u.fill? f = some after) {r : Run β ε} (fills : r.state.toDatapath.Fills f) :
    ∃ next, r.step operation width u = (.next, next) ∧ next.state.toDatapath.Fills after ∧
      (r.state.toDatapath.Aimed → next.state.toDatapath.Aimed) := by
  cases u with
  | cycle c =>
    rw [step]
    split
    · obtain ⟨operand, data⟩ := BusCycle.fill?_grows fits
      exact ⟨_, rfl, fills.mono operand data, id⟩
    · exact cycle_leaves (BusCycle.transfer_leaves fits fills)
  | construct c =>
    obtain ⟨next, applied, filled, aims⟩ := Construction.apply_leaves fits fills
    rw [step, applied]
    exact ⟨_, rfl, filled, aims⟩
  | copy c =>
    obtain ⟨filled, aims⟩ := Copy.apply_leaves fits width fills
    exact ⟨_, rfl, filled, aims⟩
  | perform => exact absurd rfl own
  | endOfProgram => cases fits

theorem Run.step_ne_fault {u : MicroOp} (fits : u.fill? f = some after) {r next : Run β ε}
    (fills : r.state.toDatapath.Fills f) {cause : Fault} :
    r.step operation width u ≠ (.fault cause, next) := by
  intro faulted
  by_cases own : u = .perform
  · subst own
    exact absurd faulted perform_ne_fault
  · obtain ⟨there, stepped, -⟩ := Run.step_leaves own fits fills
    rw [stepped] at faulted
    cases faulted

theorem leads_of_fits {q : Program} (own : .perform ∉ q)
    (fits : q.fill? f = some after) {r : Run β ε} (fills : r.state.toDatapath.Fills f) :
    ∃ next, Leads operation width q r next ∧ next.state.toDatapath.Fills after := by
  induction q generalizing f r with
  | nil =>
    cases fits
    exact ⟨r, .nil, fills⟩
  | cons u rest ih =>
    obtain ⟨middle, first, later⟩ := Program.fill?_cons_iff.mp fits
    have apart : u ≠ .perform := fun same => own (by simp [same])
    obtain ⟨between, stepped, filled, -⟩ := Run.step_leaves apart first fills
    obtain ⟨next, leads, there⟩ := ih (fun member => own (by simp [member])) later filled
    exact ⟨next, .cons stepped leads, there⟩

end

end Microcode
