import Microcode.Proofs.Execution.Settling
import Microcode.Proofs.Mode.Operand

namespace Microcode

def Program.operandFetches (width : Width) : Program :=
  List.replicate (width.bytes.toNat - 1) (.cycle .fetchDataUp) ++ [.cycle .fetchData]

namespace AddressingMode

def head (mode : AddressingMode) (access : Access) : Program :=
  match mode with
  | .absolute | .absoluteModify => absoluteHead
  | .absoluteLong => longHead .absoluteLong
  | .absoluteLongX => longHead .absoluteLongX
  | .absoluteX => indexedHead .x (access == .read)
  | .absoluteXModify => indexedHead .x false
  | .absoluteY => indexedHead .y (access == .read)
  | .direct | .directModify => directHead
  | .directX | .directXModify => directIndexedHead (.directIndexed .x)
  | .directY => directIndexedHead (.directIndexed .y)
  | .directIndexedIndirect =>
    directIndexedHead .directIndexedIndirect ++
      [.cycle .fetchDataUp, .cycle .fetchData, .construct .directIndirect]
  | .directIndirect => directPointer ++ [.construct .directIndirect]
  | .directIndirectIndexed =>
    directPointer ++
      [.construct (.directIndirectIndexed (access == .read)), .cycle .idleUncorrected]
  | .directIndirectLong => directLongPointer ++ [.construct .directIndirectLong]
  | .directIndirectLongIndexed => directLongPointer ++ [.construct .directIndirectLongIndexed]
  | .stackRelative => stackHead
  | .stackRelativeIndirectIndexed =>
    stackHead ++
      [.cycle .fetchDataUp, .cycle .fetchData, .cycle .idleData,
        .construct .stackRelativeIndirectIndexed]
  | _ => []

theorem program_of_isTransfer {mode : AddressingMode} (transfers : mode.isTransfer)
    (access : Access) (width : Width) :
    mode.program access width = mode.head access ++ Program.transfer access width := by
  cases mode <;> first | rfl | cases transfers

-- What a program does before the executor is called, and what it does after.
def prelude (mode : AddressingMode) (access : Access) (width : Width) : Program :=
  (mode.program access width).takeWhile (· != .perform)

def finale (mode : AddressingMode) (access : Access) (width : Width) : Program :=
  ((mode.program access width).dropWhile (· != .perform)).tail

theorem program_eq (mode : AddressingMode) (access : Access) (width : Width) :
    mode.program access width =
      mode.prelude access width ++ .perform :: mode.finale access width := by
  cases mode <;> cases access <;> cases width <;> rfl

theorem finale_settles (mode : AddressingMode) (access : Access) (width : Width) :
    ∀ u ∈ mode.finale access width, u.settles := by
  cases mode <;> cases access <;> cases width <;> decide

theorem perform_not_mem_prelude (mode : AddressingMode) (access : Access) (width : Width) :
    .perform ∉ mode.prelude access width := by
  intro member
  have apart := List.mem_takeWhile_imp member
  simp at apart

theorem perform_not_mem_finale (mode : AddressingMode) (access : Access) (width : Width) :
    .perform ∉ mode.finale access width := by
  intro member
  cases mode.finale_settles access width .perform member

theorem split_cases {mode : AddressingMode} {access : Access} {width : Width} {u : MicroOp}
    {behind ahead : Program} (split : mode.program access width = behind ++ u :: ahead) :
    (∃ rest, mode.prelude access width = behind ++ u :: rest) ∨
    (u = .perform ∧ behind = mode.prelude access width ∧ ahead = mode.finale access width) ∨
    ∃ front, behind = mode.prelude access width ++ .perform :: front ∧
      mode.finale access width = front ++ u :: ahead := by
  rw [program_eq, List.append_eq_append_iff] at split
  obtain ⟨rest, rfl, same⟩ | ⟨rest, whole, same⟩ := split
  · cases rest with
    | nil =>
      cases same
      exact .inr (.inl ⟨rfl, (List.append_nil _), rfl⟩)
    | cons v front =>
      obtain ⟨rfl, later⟩ := List.cons.inj same
      exact .inr (.inr ⟨front, rfl, later⟩)
  · cases rest with
    | nil =>
      cases same
      exact .inr (.inl ⟨rfl, by simpa using whole.symm, rfl⟩)
    | cons v rest =>
      obtain ⟨rfl, -⟩ := List.cons.inj same
      exact .inl ⟨rest, whole⟩

theorem parts_of_split {mode : AddressingMode} {access : Access} {width : Width}
    {behind ahead : Program} (split : mode.program access width = behind ++ .perform :: ahead) :
    behind = mode.prelude access width ∧ ahead = mode.finale access width := by
  rcases split_cases split with ⟨rest, earlier⟩ | ⟨-, parts⟩ | ⟨front, -, later⟩
  · exact absurd (earlier ▸ by simp) (mode.perform_not_mem_prelude access width)
  · exact parts
  · exact absurd (later ▸ by simp) (mode.perform_not_mem_finale access width)

theorem prelude_of_isTransfer {mode : AddressingMode} (transfers : mode.isTransfer) (width : Width) :
    mode.prelude .read width = mode.head .read ++ Program.operandFetches width ∧
      mode.prelude .write width = mode.head .write := by
  cases mode <;> first | (cases width <;> exact ⟨rfl, rfl⟩) | cases transfers

theorem prelude_of_isModify {mode : AddressingMode} (modifies : mode.isModify) (access : Access)
    (width : Width) :
    mode.prelude access width =
      mode.head access ++ (Program.operandFetches width ++
        [.cycle (match width with | .eight => .rewriteData | .sixteen => .idleData)]) := by
  cases mode <;> first | (cases access <;> cases width <;> rfl) | cases modifies

end AddressingMode

end Microcode
