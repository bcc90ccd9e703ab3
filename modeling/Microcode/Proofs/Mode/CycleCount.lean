import Microcode.Proofs.Execution.Cycles
import Microcode.Proofs.Mode.Control
import Microcode.Proofs.Mode.Overfilling

namespace Microcode

namespace Event

def firstFetched (space : AddressSpace) : List Event → UInt8
  | [] => 0
  | .fetch other _ byte :: rest => if other = space then byte else firstFetched space rest
  | _ :: rest => firstFetched space rest

theorem firstFetched_fetches {space : AddressSpace} {address : Nat → UInt32} {byte : UInt8}
    {rest : List UInt8} {later : List Event} :
    firstFetched space (fetches space address (byte :: rest) ++ later) = byte := by
  rw [fetches_cons, List.cons_append, firstFetched, if_pos rfl]

theorem firstFetched_append {space other : AddressSpace} (apart : other ≠ space)
    {front : List Event} (from_ : ∀ e ∈ front, ∃ address byte, e = .fetch other address byte)
    (later : List Event) : firstFetched space (front ++ later) = firstFetched space later := by
  induction front with
  | nil => rfl
  | cons e front ih =>
    obtain ⟨address, byte, rfl⟩ := from_ e (by simp)
    rw [List.cons_append, firstFetched, if_neg apart]
    exact ih fun e member => from_ e (by simp [member])

end Event

theorem Event.mem_map_fetch (space : AddressSpace) (address : UInt32) (bytes : List UInt8) :
    ∀ e ∈ bytes.map (Event.fetch space address ·), ∃ at_ byte, e = .fetch space at_ byte := by
  intro e member
  obtain ⟨byte, -, rfl⟩ := List.mem_map.mp member
  exact ⟨_, _, rfl⟩

theorem Registers.length_operandCalls (R : Registers) (bytes : List UInt8) :
    (R.operandCalls bytes).length = bytes.length :=
  Event.length_fetches ..

theorem littleEndian_mod (byte : UInt8) (rest : List UInt8) :
    littleEndian (byte :: rest) % 256 = byte.toNat := by
  have bound := byte.toNat_lt
  rw [littleEndian]
  omega

namespace AddressingMode

-- The low byte to which an index is added: that of a pointer or of the operand,
-- each the first byte that came from its space.
def lowByte (mode : AddressingMode) (events : List Event) : UInt8 :=
  match mode with
  | .directIndirectIndexed => Event.firstFetched .data events
  | _ => Event.firstFetched .program events

-- The cycles that the processor's reference gives for an instruction, the fetch
-- of the opcode among them.
def documentedCycles (mode : AddressingMode) (access : Access) (width : Width) (R : Registers)
    (low : UInt8) : Nat :=
  let w := match width with
    | .eight => 0
    | .sixteen => 1
  let d := if R.direct.toNat % 0x100 = 0 then 0 else 1
  let p := fun index : UInt16 =>
    if R.indexWidth = .eight ∧ low.toNat + index.toNat ≤ 0xff then 0 else 1
  match mode, access with
  | .absolute, _ => 4 + w
  | .absoluteModify, _ => 6 + 2 * w
  | .absoluteJump, _ => 3
  | .absoluteCall, _ => 6
  | .absoluteIndexedIndirectJump, _ => 6
  | .absoluteIndexedIndirectCall, _ => 8
  | .absoluteIndirectLongJump, _ => 6
  | .absoluteIndirectJump, _ => 5
  | .absoluteLong, _ => 5 + w
  | .absoluteLongX, _ => 5 + w
  | .absoluteLongJump, _ => 4
  | .absoluteLongCall, _ => 8
  | .absoluteX, .read => 4 + w + p R.x
  | .absoluteX, .write => 5 + w
  | .absoluteY, .read => 4 + w + p R.y
  | .absoluteY, .write => 5 + w
  | .absoluteXModify, _ => 7 + 2 * w
  | .accumulator, _ => 2
  | .blockMove, _ => 7
  | .direct, _ => 3 + w + d
  | .directModify, _ => 5 + 2 * w + d
  | .directX, _ => 4 + w + d
  | .directY, _ => 4 + w + d
  | .directXModify, _ => 6 + 2 * w + d
  | .directIndexedIndirect, _ => 6 + w + d
  | .directIndirect, _ => 5 + w + d
  | .directIndirectIndexed, .read => 5 + w + d + p R.y
  | .directIndirectIndexed, .write => 6 + w + d
  | .directIndirectLong, _ => 6 + w + d
  | .directIndirectLongIndexed, _ => 6 + w + d
  | .stackRelative, _ => 4 + w
  | .stackRelativeIndirectIndexed, _ => 7 + w

def indexBase (mode : AddressingMode) (operand pointer : Nat) : Nat :=
  match mode with
  | .directIndirectIndexed => pointer
  | _ => operand

theorem operandLength_pos {mode : AddressingMode} (located : mode.isTransfer ∨ mode.isModify) :
    0 < mode.operandLength := by
  cases mode <;> first | decide | simp [isTransfer, isModify] at located

theorem crossing_eq (R : Registers) {low : UInt8} {base : Nat} (same : low.toNat = base % 256)
    (index : UInt16) :
    (if R.indexWidth = .eight ∧ low.toNat + index.toNat ≤ 0xff then 0 else 1) =
      R.indexReads .read base index := by
  simp only [Registers.indexReads, same, true_and]

theorem documentedCycles_of_isTransfer {mode : AddressingMode} (transfers : mode.isTransfer)
    (access : Access) (width : Width) (R : Registers) {low : UInt8} {operand pointer : Nat}
    (base : low.toNat = mode.indexBase operand pointer % 256) :
    mode.documentedCycles access width R low =
      mode.operandLength + mode.idleReads R + mode.pointerLength +
        mode.dummyReads access R operand pointer + width.bytes.toNat + 1 := by
  have bytes : width.bytes.toNat = (match width with | .eight => 0 | .sixteen => 1) + 1 := by
    cases width <;> rfl
  rw [bytes]
  cases mode with
  | absoluteX | absoluteY | directIndirectIndexed =>
    cases access with
    | read =>
      simp only [documentedCycles, crossing_eq R base]
      simp only [operandLength, idleReads, pointerLength, dummyReads, indexBase, Registers.directReads]
      omega
    | write =>
      have always : ∀ base index, R.indexReads .write base index = 1 := fun _ _ => rfl
      simp only [documentedCycles, operandLength, idleReads, pointerLength, dummyReads, always,
        Registers.directReads]
      omega
  | absolute | absoluteLong | absoluteLongX | direct | directX | directY | directIndexedIndirect
  | directIndirect | directIndirectLong | directIndirectLongIndexed | stackRelative
  | stackRelativeIndirectIndexed =>
    simp only [documentedCycles, operandLength, idleReads, pointerLength, dummyReads,
      Registers.directReads]
    omega
  | _ => cases transfers

theorem documentedCycles_of_isModify {mode : AddressingMode} (modifies : mode.isModify)
    (access : Access) (width : Width) (R : Registers) (low : UInt8) (operand pointer : Nat) :
    mode.documentedCycles access width R low =
      mode.operandLength + mode.idleReads R + mode.pointerLength +
        mode.dummyReads access R operand pointer + 2 * width.bytes.toNat + 2 := by
  have bytes : width.bytes.toNat = (match width with | .eight => 0 | .sixteen => 1) + 1 := by
    cases width <;> rfl
  rw [bytes]
  cases mode with
  | absoluteModify | absoluteXModify | directModify | directXModify =>
    simp only [documentedCycles, operandLength, idleReads, pointerLength, dummyReads,
      Registers.directReads]
    omega
  | _ => cases modifies

theorem finale_busCycles_of_isTransfer {mode : AddressingMode} (transfers : mode.isTransfer)
    (width : Width) :
    (mode.finale .read width).busCycles = 0 ∧
      (mode.finale .write width).busCycles = width.bytes.toNat := by
  cases mode <;> first | (cases width <;> exact ⟨rfl, rfl⟩) | cases transfers

theorem finale_busCycles_of_isModify {mode : AddressingMode} (modifies : mode.isModify)
    (access : Access) (width : Width) :
    (mode.finale access width).busCycles = width.bytes.toNat := by
  cases mode <;> first | (cases access <;> cases width <;> rfl) | cases modifies

def Counts (mode : AddressingMode) (access : Access) (width : Width) (R : Registers)
    (calls : List Event) : Prop :=
  ∀ later, calls.length + (mode.finale access width).busCycles + 1 =
    mode.documentedCycles access width R (mode.lowByte (calls ++ later))

end AddressingMode

namespace Reading

variable {reading : Reading} {mode : AddressingMode} {access : Access} {R : Registers}

theorem length_calls (fits : reading.Fits mode access R) :
    (reading.calls mode R).length =
      mode.operandLength + mode.idleReads R + mode.pointerLength +
        mode.dummyReads access R (littleEndian reading.operand) (littleEndian reading.pointer) := by
  simp only [calls, List.length_append, R.length_operandCalls, Event.length_fetches,
    List.length_map, fits.operand, fits.idle, fits.pointer, fits.dummy]

theorem lowByte_calls (located : mode.isTransfer ∨ mode.isModify)
    (fits : reading.Fits mode access R) (later : List Event) :
    (mode.lowByte (reading.calls mode R ++ later)).toNat =
      mode.indexBase (littleEndian reading.operand) (littleEndian reading.pointer) % 256 := by
  rw [calls_append, Registers.operandCalls]
  by_cases indirect : mode = .directIndirectIndexed
  · subst indirect
    obtain ⟨low, rest, bytes⟩ := List.exists_of_length_succ _ fits.pointer
    rw [AddressingMode.lowByte, Event.firstFetched_append (by decide) (Event.mem_fetches _ _ _),
      Event.firstFetched_append (by decide) (Event.mem_map_fetch _ _ _), bytes,
      Event.firstFetched_fetches]
    exact (littleEndian_mod low rest).symm
  · have positive : 0 < reading.operand.length := by
      rw [fits.operand]
      exact AddressingMode.operandLength_pos located
    obtain ⟨low, rest, bytes⟩ := List.exists_cons_of_length_pos positive
    have first : mode.lowByte = Event.firstFetched .program := by
      cases mode <;> first | rfl | exact absurd rfl indirect
    have base : ∀ operand pointer, mode.indexBase operand pointer = operand := by
      cases mode <;> first | (intro operand pointer; rfl) | exact absurd rfl indirect
    rw [first, base, bytes, Event.firstFetched_fetches]
    exact (littleEndian_mod low rest).symm

end Reading

namespace Yields

variable {operation : Operation} {width : Width} {R : Registers} {A M U : UInt32}

open AddressingMode

theorem counts_of_isTransfer {mode : AddressingMode} (transfers : mode.isTransfer) (access : Access) :
    Yields operation width (mode.prelude access width ++ []) (.holding R [] [] A M U false)
      fun calls _ => mode.Counts access width R calls := by
  have located : mode.isTransfer ∨ mode.isModify := .inl transfers
  cases access with
  | read =>
    rw [(prelude_of_isTransfer transfers width).1, List.append_assoc]
    refine head located fun reading U fits => ?_
    refine operandFetches (reading.target_lt located fits) fun data whole => .nil fun later => ?_
    rw [List.append_assoc, documentedCycles_of_isTransfer transfers _ _ _
      (Reading.lowByte_calls located fits _), (finale_busCycles_of_isTransfer transfers width).1]
    simp only [List.append_nil, List.length_append, Reading.length_calls fits,
      Event.length_fetches, whole]
  | write =>
    rw [(prelude_of_isTransfer transfers width).2]
    refine head located fun reading U fits => .nil fun later => ?_
    rw [List.append_assoc, documentedCycles_of_isTransfer transfers _ _ _
      (Reading.lowByte_calls located fits _), (finale_busCycles_of_isTransfer transfers width).2]
    simp only [List.append_nil, Reading.length_calls fits]

theorem counts_of_isModify {mode : AddressingMode} (modifies : mode.isModify) (access : Access) :
    Yields operation width (mode.prelude access width ++ []) (.holding R [] [] A M U false)
      fun calls _ => mode.Counts access width R calls := by
  refine modifyPrelude modifies fun reading old again U fits whole => .nil fun later => ?_
  rw [finale_busCycles_of_isModify modifies, documentedCycles_of_isModify modifies _ _ _ _
    (littleEndian reading.operand) (littleEndian reading.pointer)]
  simp only [List.length_append, Reading.length_calls fits, Event.length_fetches, whole,
    List.length_singleton]
  omega

theorem counts (mode : AddressingMode) (access : Access) :
    Yields operation width (mode.prelude access width) (.holding R [] [] A M U false)
      fun calls _ => mode.Counts access width R calls := by
  rw [← List.append_nil (mode.prelude access width)]
  cases mode with
  | absoluteModify | absoluteXModify | directModify | directXModify =>
    exact counts_of_isModify rfl access
  | accumulator =>
    refine fetch rfl rfl (fun _ => rfl) fun idle => copy (.nil fun later => ?_)
    rfl
  | blockMove =>
    refine blockMove fun destination source byte first second => .nil fun later => ?_
    simp only [List.length_append, List.length_cons, R.length_operandCalls]
    rfl
  | absoluteJump =>
    refine absoluteJump fun operand two => .nil fun later => ?_
    simp only [List.length_append, R.length_operandCalls, two]
    rfl
  | absoluteCall =>
    refine absoluteCall fun operand idle two => .nil fun later => ?_
    simp only [List.length_append, List.length_cons, R.length_operandCalls, two]
    rfl
  | absoluteIndexedIndirectJump =>
    refine absoluteIndexedIndirectJump fun operand idle pointer two asked => .nil fun later => ?_
    simp only [List.length_append, List.length_cons, R.length_operandCalls, Event.length_fetches,
      two, asked]
    rfl
  | absoluteIndexedIndirectCall =>
    refine absoluteIndexedIndirectCall fun low high idle pointer asked => .nil fun later => ?_
    simp only [List.length_append, List.length_cons, Event.length_fetches, asked]
    rfl
  | absoluteIndirectLongJump =>
    refine absoluteIndirectLongJump fun operand pointer two three => .nil fun later => ?_
    simp only [List.length_append, R.length_operandCalls, Event.length_fetches, two, three]
    rfl
  | absoluteIndirectJump =>
    refine absoluteIndirectJump fun operand pointer two asked => .nil fun later => ?_
    simp only [List.length_append, R.length_operandCalls, Event.length_fetches, two, asked]
    rfl
  | absoluteLongJump =>
    refine absoluteLongJump fun operand three => .nil fun later => ?_
    simp only [List.length_append, R.length_operandCalls, three]
    rfl
  | absoluteLongCall =>
    refine absoluteLongCall fun low middle idle bank => .nil fun later => ?_
    simp only [List.length_append, List.length_cons, R.length_operandCalls]
    rfl
  | _ => exact counts_of_isTransfer rfl access

end Yields

section

variable {β ε : Type} [Bus β] [Executor ε]

theorem MicroOp.isConstruction_of_settles {u : MicroOp} (settles : u.settles) :
    u.isConstruction = false := by
  cases u with
  | construct c => cases settles
  | _ => rfl

structure Table.CyclesDocumented (t : Table) (a : Assignment) (width : Width) (m : Machine β ε)
    (limit : Nat) : Prop where
  returns : (t.dispatch limit a.opcode width m).1 = .completed ∨
    ∃ steps called, t.Overruns a width m steps called
  -- What a dispatch returns is the number of the bus calls it made, and with the
  -- fetch of the opcode these are as many as the reference says.
  counted : ∀ r, t.dispatch limit a.opcode width m = (.completed, r) →
    r.cycles = Event.busCalls r.events ∧
    r.cycles + 1 = a.mode.documentedCycles a.operation.access width m.state.registers
      (a.mode.lowByte r.events.toList)

theorem Table.cycles_documented {assignments : List Assignment} {t : Table}
    (built : Table.build assignments = .ok t) {a : Assignment} (assigned : a ∈ assignments)
    {width : Width} {m : Machine β ε} (single : t.SinglePass a.opcode width m) {limit : Nat}
    (enough : (a.mode.program a.operation.access width).length < limit) :
    t.CyclesDocumented a width m limit := by
  obtain ⟨offset, holds⟩ := holds_of_build built assigned width
  have begins := holds.passBegins_first m
  have fresh := m.state.beginInstruction_fresh
  have split := a.mode.program_eq a.operation.access width
  obtain ⟨called, calls, leads, -, events, cycles, -, counts⟩ :=
    (Yields.counts a.mode a.operation.access).run m.begin fresh
  have once := holds.not_repeats single split leads
  have still := skipNext_of_called fresh split leads
  have clear : (called.afterCall a.operation width).state.skipNext = false := still
  have settles := a.mode.finale_settles a.operation.access width
  constructor
  · rcases holds.leads_or_overruns begins leads once with ⟨r, later⟩ | overruns
    · rw [← Nat.zero_add (List.length _)] at enough
      have ended := holds.completes_after_call begins split leads once later enough
      exact .inl (congrArg Prod.fst ended)
    · exact .inr ⟨_, called, overruns⟩
  · intro r ended
    have balanced := t.dispatch_balanced limit a.opcode width m
    rw [ended] at balanced
    have later := holds.leads_of_completed single split leads ended
    have total : r.cycles = calls.length + (a.mode.finale a.operation.access width).busCycles := by
      rw [later.cycles_eq (fun u member => MicroOp.isConstruction_of_settles (settles u member)) clear]
      exact congrArg (· + _) (cycles.trans (Nat.zero_add _))
    obtain ⟨more, grown⟩ := later.events
    have made : r.events.toList = calls ++ (.perform a.operation width called.state :: more) := by
      rw [grown, Run.afterCall, Array.toList_push, events]
      simp [Machine.begin]
    refine ⟨balanced, ?_⟩
    rw [total, made]
    exact counts _

-- The index exceeds a byte here although the index registers have eight bits.
theorem Table.cycles_documented_wide_index :
    let a : Assignment := ⟨0xBD, .absoluteX, .lda⟩
    let m : Machine Bench.Memory Bench.Player :=
      { state := .ofRegisters { x := 0x01FF }, bus := {}, executor := {} }
    a ∈ opcodeMap ∧ standardTable.SinglePass a.opcode .sixteen m ∧
      (a.mode.program a.operation.access .sixteen).length < 20 ∧
        standardTable.CyclesDocumented a .sixteen m 20 := by
  intro a m
  have assigned : a ∈ opcodeMap := by decide
  obtain ⟨offset, holds⟩ := holds_of_build build_opcodeMap assigned .sixteen
  have single : standardTable.SinglePass a.opcode .sixteen m := holds.singlePass rfl
  exact ⟨assigned, single, by decide, cycles_documented build_opcodeMap assigned single (by decide)⟩

end

end Microcode
