import Microcode.Proofs.Execution.Elision
import Microcode.Proofs.Mode.CycleCount

namespace Microcode

namespace AddressingMode

def addedIndex? : AddressingMode → Option Index
  | .absoluteX | .absoluteXModify => some .x
  | .absoluteY | .directIndirectIndexed => some .y
  | _ => none

def baseHead : AddressingMode → Program
  | .directIndirectIndexed => directPointer
  | _ => [.cycle .fetchOperand, .cycle .fetchOperand]

def indexing (mode : AddressingMode) (index : Index) (elide : Bool) : Construction :=
  match mode with
  | .directIndirectIndexed => .directIndirectIndexed elide
  | _ => .absoluteIndexed index elide

def mayElide (mode : AddressingMode) (access : Access) : Bool :=
  access == .read && mode.isTransfer

theorem program_of_addedIndex? {mode : AddressingMode} {index : Index}
    (adds : mode.addedIndex? = some index) (access : Access) (width : Width) :
    ∃ later, mode.program access width =
      mode.baseHead ++ .construct (mode.indexing index (mode.mayElide access)) ::
        .cycle .idleUncorrected :: later := by
  cases mode with
  | absoluteX | absoluteXModify | absoluteY | directIndirectIndexed =>
    cases adds
    cases access <;> exact ⟨_, rfl⟩
  | _ => cases adds

end AddressingMode

namespace Reading

structure Bases (reading : Reading) (mode : AddressingMode) (R : Registers) : Prop where
  operand : reading.operand.length = mode.operandLength
  idle : reading.idle.length = mode.idleReads R
  pointer : reading.pointer.length = mode.pointerLength
  dummy : reading.dummy = []

def base (reading : Reading) (mode : AddressingMode) (R : Registers) : Nat :=
  R.dataBank.toNat * 0x10000 +
    mode.indexBase (littleEndian reading.operand) (littleEndian reading.pointer)

end Reading

namespace State

variable {R : Registers} {operand data : List UInt8} {A M U : UInt32} {marked : Bool}

def indexed (R : Registers) (operand : List UInt8) (base : Nat) (index : UInt16) (elide : Bool) :
    State :=
  .holding R operand [] (.ofNat ((base + index.toNat) % 0x1000000)) addressMask
    (.ofNat (uncorrectedAddress base index.toNat))
    (elide && R.indexWidth == .eight && decide (base % 256 + index.toNat ≤ 0xff))

theorem aimIndexed_eq_indexed {base : Nat} (inside : base < 0x1000000) (index : Index)
    (elide : Bool) :
    (State.holding R operand [] A M U marked).aimIndexed (.ofNat base) index elide =
      .indexed R operand base (R.index index) elide := by
  have value : (UInt32.ofNat base).toNat = base := by
    rw [UInt32.toNat_ofNat']
    omega
  rw [aimIndexed_holding (by rw [value]; exact inside), value]
  rfl

variable {base : Nat} {index : UInt16} {elide : Bool}

theorem toNat_dataAddress_indexed :
    (indexed R operand base index elide).dataAddress.toNat =
      (base + index.toNat) % 0x1000000 := by
  change (UInt32.ofNat _).toNat = _
  rw [UInt32.toNat_ofNat']
  omega

theorem toNat_uncorrected_indexed (inside : base < 0x1000000) :
    (indexed R operand base index elide).uncorrected.toNat =
      uncorrectedAddress base index.toNat := by
  change (UInt32.ofNat _).toNat = _
  rw [UInt32.toNat_ofNat', uncorrectedAddress]
  omega

-- The page is kept just where nothing is carried out of the low byte. The index
-- is no more than a word, so a sum that wraps comes to another page.
theorem uncorrected_indexed_eq_iff (inside : base < 0x1000000) :
    (indexed R operand base index elide).uncorrected =
      (indexed R operand base index elide).dataAddress ↔ base % 256 + index.toNat ≤ 0xff := by
  have word := index.toNat_lt
  rw [← UInt32.toNat_inj, toNat_uncorrected_indexed inside, toNat_dataAddress_indexed,
    uncorrectedAddress]
  omega

theorem skipNext_indexed_iff :
    (indexed R operand base index elide).skipNext = true ↔
      elide = true ∧ R.indexWidth = .eight ∧ base % 256 + index.toNat ≤ 0xff := by
  change (elide && R.indexWidth == .eight && decide _) = true ↔ _
  rw [Bool.and_eq_true, Bool.and_eq_true, beq_iff_eq, decide_eq_true_iff, and_assoc]

end State

namespace Yields

variable {operation : Operation} {width : Width} {R : Registers} {A M U : UInt32}

theorem baseHead {mode : AddressingMode} {index : Index} (adds : mode.addedIndex? = some index)
    (elide : Bool) :
    Yields operation width mode.baseHead (.holding R [] [] A M U false) fun calls s =>
      ∃ reading : Reading, reading.Bases mode R ∧ calls = reading.calls mode R ∧
        reading.base mode R < 0x1000000 ∧
        (mode.indexing index elide).apply s =
          .ok (.indexed (R.advance mode.operandLength) reading.operand (reading.base mode R)
            (R.index index) elide) := by
  have bank := R.dataBank.toNat_lt
  cases mode with
  | absoluteX | absoluteXModify | absoluteY =>
    cases adds
    refine operandBytes 2 (by decide) fun operand two => .nil ?_
    have bound := littleEndian_lt operand
    rw [two] at bound
    refine ⟨⟨operand, [], [], []⟩, ⟨two, rfl, rfl, rfl⟩, ?_, ?_, ?_⟩
    · simp [Reading.calls, Event.fetches]
    · simp only [Reading.base, AddressingMode.indexBase]
      omega
    · refine (Construction.absoluteIndexed_apply two _ elide).trans (congrArg Except.ok ?_)
      refine State.aimIndexed_eq_indexed ?_ _ elide
      change R.dataBank.toNat * 0x10000 + _ < _
      omega
  | directIndirectIndexed =>
    cases adds
    refine direct 0 (fun _ => rfl) fun operand idle one length => ?_
    refine pointer (Nat.mod_lt _ (by decide)) 1 (by decide) fun bytes two => .nil ?_
    have bound := littleEndian_lt bytes
    rw [two] at bound
    refine ⟨⟨operand, idle, bytes, []⟩, ⟨one, length, two, rfl⟩, ?_, ?_, ?_⟩
    · rw [← List.append_nil (Reading.calls _ _ _), Reading.calls_append]
      rfl
    · simp only [Reading.base, AddressingMode.indexBase]
      omega
    · refine (Construction.directIndirectIndexed_apply two elide).trans (congrArg Except.ok ?_)
      refine State.aimIndexed_eq_indexed ?_ _ elide
      change R.dataBank.toNat * 0x10000 + _ < _
      omega
  | _ => cases adds

end Yields

section

variable {β ε : Type} [Bus β] [Executor ε]

structure Table.MeetsDummyRead (t : Table) (a : Assignment) (index : Index) (width : Width)
    (m : Machine β ε) (R : Registers) (base steps : Nat) (aimed : Run β ε) : Prop where
  added : ∃ position before,
    t.Meets a.opcode width m steps position
      (.construct (a.mode.indexing index (a.mode.mayElide a.operation.access))) before ∧
    t.Meets a.opcode width m (steps + 1) (position + 1) (.cycle .idleUncorrected) aimed
  -- The sum carries into the bank and wraps in the address space, while the dummy
  -- read stays on the page of the base.
  address : aimed.state.dataAddress.toNat = (base + (R.index index).toNat) % 0x1000000
  uncorrected : aimed.state.uncorrected.toNat = uncorrectedAddress base (R.index index).toNat
  alike : aimed.state.uncorrected = aimed.state.dataAddress ↔
    base % 256 + (R.index index).toNat ≤ 0xff
  performed : ¬ t.Omits a.opcode width m (steps + 1) .idleUncorrected →
    ∃ found next byte, t.dispatch (steps + 2) a.opcode width m = (.unfinished found, next) ∧
      next.events = aimed.events.push (.fetch .data aimed.state.uncorrected byte) ∧
      next.cycles = aimed.cycles + 1 ∧ next.state = aimed.state
  -- No dummy read is made where a read with 8-bit index registers stays on the page.
  omitted : t.Omits a.opcode width m (steps + 1) .idleUncorrected ↔
    a.operation.access = .read ∧ a.mode.isTransfer ∧ R.indexWidth = .eight ∧
      base % 256 + (R.index index).toNat ≤ 0xff

namespace Table.Holds

variable {t : Table} {a : Assignment} {index : Index} {width : Width} {offset : Nat}
  {m : Machine β ε} {steps position : Nat} {start r : Run β ε} {c : BusCycle}

theorem omits_iff (holds : t.Holds a width offset)
    (meets : t.Meets a.opcode width m steps position (.cycle c) r) :
    t.Omits a.opcode width m steps c ↔ r.state.skipNext = true := by
  constructor
  · intro omits
    obtain ⟨other, next, again, set_⟩ := holds.marked_of_omits omits
    have same := again.stands
    rw [meets.stands] at same
    cases same
    exact set_
  · intro set_
    have onward := holds.dispatch_of_meets meets
    rw [Run.step, if_pos set_] at onward
    exact ⟨position, r, _, _, meets, onward, rfl⟩

theorem meets_dummyRead (holds : t.Holds a width offset) (adds : a.mode.addedIndex? = some index)
    (begins : t.PassBegins a.opcode width m steps start) :
    ∃ (reading : Reading) (count : Nat) (aimed : Run β ε),
      reading.Bases a.mode start.state.registers ∧
      aimed.events.toList = start.events.toList ++ reading.calls a.mode start.state.registers ∧
      t.MeetsDummyRead a index width m start.state.registers
        (reading.base a.mode start.state.registers) (steps + count) aimed := by
  obtain ⟨later, split⟩ := AddressingMode.program_of_addedIndex? adds a.operation.access width
  obtain ⟨before, calls, leads, -, events, -, -, reading, bases, made, inside, applied⟩ :=
    (Yields.baseHead adds (a.mode.mayElide a.operation.access)).run start
      (holds.fresh_of_passBegins begins)
  let R := start.state.registers
  let base := reading.base a.mode R
  let aimed : Run β ε := { before with
    state := .indexed (R.advance a.mode.operandLength) reading.operand base (R.index index)
      (a.mode.mayElide a.operation.access) }
  have stepped : before.step a.operation width
      (.construct (a.mode.indexing index (a.mode.mayElide a.operation.access))) =
        (.next, aimed) := by
    rw [Run.step, applied]
  have construction := holds.reach begins split leads
  have further := split.trans (List.append_cons ..)
  have dummy := holds.reach begins further (leads.append (.single stepped))
  rw [List.length_append, List.length_singleton, ← Nat.add_assoc] at dummy
  have meets : t.Meets a.opcode width m (steps + a.mode.baseHead.length + 1)
      (offset + a.mode.baseHead.length + 1) (.cycle .idleUncorrected) aimed :=
    ⟨dummy, by simpa [Nat.add_assoc] using holds.placed.read further⟩
  refine ⟨reading, a.mode.baseHead.length, aimed, bases, made ▸ events, ?_⟩
  constructor
  · exact ⟨_, before, ⟨construction, holds.placed.read split⟩, meets⟩
  · exact State.toNat_dataAddress_indexed
  · exact State.toNat_uncorrected_indexed inside
  · exact State.uncorrected_indexed_eq_iff inside
  · intro kept
    rw [holds.omits_iff meets] at kept
    have onward := holds.dispatch_of_meets meets
    rw [Run.step, if_neg kept] at onward
    exact ⟨_, _, _, onward, rfl, rfl, rfl⟩
  · rw [holds.omits_iff meets, State.skipNext_indexed_iff, AddressingMode.mayElide,
      Bool.and_eq_true, beq_iff_eq, and_assoc]
    rfl

end Table.Holds

theorem Leads.first_fetched {operation : Operation} {width : Width} {rest : Program}
    {r next : Run β ε} (clear : r.state.skipNext = false)
    (leads : Leads operation width (.cycle .fetchOperand :: rest) r next) :
    ∃ more, next.events.toList = r.events.toList ++
      .fetch .program r.state.registers.programAddress
        (Bus.fetch r.bus .program r.state.registers.programAddress).1 :: more := by
  cases leads with
  | @cons _ _ _ middle _ stepped later =>
    obtain ⟨more, events⟩ := later.events
    have pushed : middle.events = r.events.push (.fetch .program r.state.registers.programAddress
        (Bus.fetch r.bus .program r.state.registers.programAddress).1) := by
      rw [Run.step, clear, if_neg Bool.false_ne_true, Run.cycle] at stepped
      dsimp only [BusCycle.transfer] at stepped
      split at stepped
      · cases stepped
        rfl
      · cases stepped
    exact ⟨more, by rw [events, pushed, Array.toList_push, List.append_assoc, List.singleton_append]⟩

namespace AddressingMode

variable {mode : AddressingMode} {index : Index}

theorem documentedCycles_of_absolute (absolute : mode = .absoluteX ∨ mode = .absoluteY)
    (adds : mode.addedIndex? = some index) (width : Width) (R : Registers) (low : UInt8) :
    mode.documentedCycles .read width R low = 3 + width.bytes.toNat +
      if R.indexWidth = .eight ∧ low.toNat + (R.index index).toNat ≤ 0xff then 0 else 1 := by
  rcases absolute with rfl | rfl <;> cases adds <;> cases width <;> rfl

end AddressingMode

theorem Table.Holds.counts_read {t : Table} {a : Assignment} {width : Width} {offset : Nat}
    {m : Machine β ε} (holds : t.Holds a width offset)
    (absolute : a.mode = .absoluteX ∨ a.mode = .absoluteY) (read : a.operation.access = .read)
    (single : t.SinglePass a.opcode width m) {limit : Nat}
    (enough : (a.mode.program a.operation.access width).length < limit) :
    ∃ r, t.dispatch limit a.opcode width m = (.completed, r) ∧
      r.cycles + 1 = a.mode.documentedCycles .read width m.state.registers
        (Bus.fetch m.bus .program m.state.registers.programAddress).1 := by
  have begins := holds.passBegins_first m
  have fresh := m.state.beginInstruction_fresh
  have split := a.mode.program_eq a.operation.access width
  have silent : a.mode.finale a.operation.access width = [] := by
    rw [read]
    rcases absolute with same | same <;> rw [same] <;> cases width <;> rfl
  obtain ⟨rest, front⟩ : ∃ rest, a.mode.prelude a.operation.access width =
      .cycle .fetchOperand :: rest := by
    rw [read]
    rcases absolute with same | same <;> rw [same] <;> cases width <;> exact ⟨_, rfl⟩
  obtain ⟨called, calls, leads, -, events, cycles, -, counts⟩ :=
    (Yields.counts a.mode a.operation.access).run m.begin fresh
  have once := holds.not_repeats single split leads
  rw [← Nat.zero_add (List.length _)] at enough
  rw [silent] at split
  refine ⟨_, holds.completes_after_call begins split leads once .nil enough, ?_⟩
  rw [front] at leads
  -- The first byte that is fetched is the low byte of the base.
  obtain ⟨more, first⟩ := leads.first_fetched rfl
  have same : calls = .fetch .program m.state.registers.programAddress
      (Bus.fetch m.bus .program m.state.registers.programAddress).1 :: more :=
    List.append_cancel_left (events.symm.trans first)
  have low : a.mode.lowByte calls =
      (Bus.fetch m.bus .program m.state.registers.programAddress).1 := by
    rw [same]
    rcases absolute with plain | plain <;> rw [plain] <;> rfl
  have total := counts []
  rw [silent, List.append_nil, low, read] at total
  calc called.cycles + 1 = calls.length + 0 + 1 := by
        rw [cycles]
        exact congrArg (· + 1) (Nat.zero_add _)
    _ = _ := total

def Registers.withIndex (R : Registers) : Index → UInt16 → Registers
  | .x, value => { R with x := value }
  | .y, value => { R with y := value }

theorem Registers.index_withIndex (R : Registers) (index : Index) (value : UInt16) :
    (R.withIndex index value).index index = value := by
  cases index <;> rfl

theorem Registers.indexWidth_withIndex (R : Registers) (index : Index) (value : UInt16) :
    (R.withIndex index value).indexWidth = R.indexWidth := by
  cases index <;> rfl

theorem Registers.programAddress_withIndex (R : Registers) (index : Index) (value : UInt16) :
    (R.withIndex index value).programAddress = R.programAddress := by
  cases index <;> rfl

def Machine.withIndex (m : Machine β ε) (index : Index) (value : UInt16) : Machine β ε :=
  { m with state.registers := m.state.registers.withIndex index value }

structure Table.IndexesWithDummyRead (t : Table) (a : Assignment) (index : Index) (width : Width)
    (m : Machine β ε) : Prop where
  passes : ∀ steps start, t.PassBegins a.opcode width m steps start →
    ∃ (reading : Reading) (count : Nat) (aimed : Run β ε),
      reading.Bases a.mode start.state.registers ∧
      aimed.events.toList = start.events.toList ++ reading.calls a.mode start.state.registers ∧
      t.MeetsDummyRead a index width m start.state.registers
        (reading.base a.mode start.state.registers) (steps + count) aimed
  -- A read costs one cycle more where another value of the index, and nothing
  -- else, takes it to another page.
  crossing : a.mode = .absoluteX ∨ a.mode = .absoluteY → a.operation.access = .read →
    m.state.registers.indexWidth = .eight →
    let low := (Bus.fetch m.bus .program m.state.registers.programAddress).1
    low.toNat + (m.state.registers.index index).toNat ≤ 0xff →
    ∀ value : UInt16, 0xff < low.toNat + value.toNat →
      t.SinglePass a.opcode width m → t.SinglePass a.opcode width (m.withIndex index value) →
      ∀ limit, (a.mode.program a.operation.access width).length < limit →
        ∃ near far, t.dispatch limit a.opcode width m = (.completed, near) ∧
          t.dispatch limit a.opcode width (m.withIndex index value) = (.completed, far) ∧
          far.cycles = near.cycles + 1

theorem Table.indexes_with_dummy_read {assignments : List Assignment} {t : Table}
    (built : Table.build assignments = .ok t) {a : Assignment} (assigned : a ∈ assignments)
    {index : Index} (adds : a.mode.addedIndex? = some index) (width : Width) (m : Machine β ε) :
    t.IndexesWithDummyRead a index width m := by
  obtain ⟨offset, holds⟩ := holds_of_build built assigned width
  constructor
  · exact fun steps start begins => holds.meets_dummyRead adds begins
  · intro absolute read eight low inside value outside once again limit enough
    obtain ⟨near, first, few⟩ := holds.counts_read absolute read once enough
    obtain ⟨far, second, more⟩ := holds.counts_read absolute read again enough
    refine ⟨near, far, first, second, ?_⟩
    rw [AddressingMode.documentedCycles_of_absolute absolute adds] at few more
    simp only [Machine.withIndex, Registers.index_withIndex, Registers.indexWidth_withIndex,
      Registers.programAddress_withIndex] at more
    rw [if_pos ⟨eight, inside⟩] at few
    rw [if_neg fun kept => Nat.not_le_of_lt outside kept.2] at more
    omega

-- From the last page of memory, where the index stays on it, to one that exceeds a
-- byte and takes the sum past the end.
theorem Table.indexes_with_dummy_read_wrapped :
    let a : Assignment := ⟨0xB9, .absoluteY, .lda⟩
    let t := (Builder.accept {} a).table
    let m : Machine FlatMemory Bench.Player :=
      { state := .ofRegisters { dataBank := 0xFF, y := 0x0001 }
        bus := ⟨fun address => if address = 0 then 0xFE else 0xFF⟩, executor := {} }
    Table.build [a] = .ok t ∧ a.mode.addedIndex? = some .y ∧
      t.IndexesWithDummyRead a .y .sixteen m ∧
      (t.dispatch 20 0xB9 .sixteen m).2.cycles = 4 ∧
      (t.dispatch 20 0xB9 .sixteen (m.withIndex .y 0x0102)).2.cycles = 5 := by
  intro a t m
  have built : Table.build [a] = .ok t := build_of_ascending (List.pairwise_singleton _ _)
  have assigned : a ∈ [a] := List.mem_singleton_self a
  obtain ⟨offset, holds⟩ := holds_of_build built assigned .sixteen
  have indexes : t.IndexesWithDummyRead a .y .sixteen m :=
    indexes_with_dummy_read built assigned rfl .sixteen m
  obtain ⟨near, far, first, second, more⟩ := indexes.crossing (.inr rfl) rfl rfl (by decide) 0x0102
    (by decide) (holds.singlePass rfl) (holds.singlePass rfl) 20 (by decide)
  have few : (t.dispatch 20 0xB9 .sixteen m).2.cycles = 4 := by decide +kernel
  refine ⟨built, rfl, indexes, few, ?_⟩
  rw [show t.dispatch 20 0xB9 .sixteen m = (.completed, near) from first] at few
  rw [show t.dispatch 20 0xB9 .sixteen (m.withIndex .y 0x0102) = (.completed, far) from second,
    more, few]

end

end Microcode
