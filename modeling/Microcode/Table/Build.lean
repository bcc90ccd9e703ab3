import Microcode.Program.OfMode
import Microcode.Table.Basic

namespace Microcode

inductive ConstructionError where
  | duplicateOpcode (opcode : UInt8)
  | outOfOrderOpcode (opcode previous : UInt8)
  deriving DecidableEq

structure ProgramKey where
  access : Access
  mode : AddressingMode
  deriving DecidableEq

def Assignment.key (a : Assignment) : ProgramKey :=
  ⟨a.operation.access, a.mode⟩

def ProgramKey.program (k : ProgramKey) (width : Width) : Program :=
  k.mode.program k.access width

structure Placement where
  eightOffset : Nat
  sixteenOffset : Nat
  deriving DecidableEq

-- A table on its way, one opcode at a time. `placed` holds the keys in the order
-- in which they came.
structure Builder where
  table : Table := .empty
  placed : List (ProgramKey × Placement) := []
  previous : Option UInt8 := none

namespace Builder

def placement? (b : Builder) (k : ProgramKey) : Option Placement :=
  b.placed.lookup k

def append (store : Array MicroOp) (p : Program) : Array MicroOp :=
  store ++ p ++ [MicroOp.endOfProgram]

-- Appends both programs of a key and drops the one for 16 bits again where it is
-- the same, end marker and all.
def generate (store : Array MicroOp) (k : ProgramKey) : Array MicroOp × Placement :=
  let eight := store.size
  let store := append store (k.program .eight)
  let sixteen := store.size
  let store := append store (k.program .sixteen)
  if store.extract eight sixteen = store.extract sixteen then
    (store.take sixteen, ⟨eight, eight⟩)
  else (store, ⟨eight, sixteen⟩)

def place (b : Builder) (k : ProgramKey) : Builder × Placement :=
  let generated := generate b.table.store k
  ({ b with table.store := generated.1, placed := b.placed ++ [(k, generated.2)] }, generated.2)

def enter (b : Builder) (a : Assignment) (p : Placement) : Builder :=
  let entry : Entry := ⟨a.operation, p.eightOffset, p.sixteenOffset⟩
  { b with
    table.entries := b.table.entries.set a.opcode.toNat (some entry) a.opcode.toNat_lt
    previous := some a.opcode }

def refusal? (b : Builder) (opcode : UInt8) : Option ConstructionError :=
  match b.previous with
  | none => none
  | some previous =>
    if previous < opcode then none
    else if opcode = previous then some (.duplicateOpcode opcode)
    else some (.outOfOrderOpcode opcode previous)

def accept (b : Builder) (a : Assignment) : Builder :=
  match b.placement? a.key with
  | some placement => b.enter a placement
  | none =>
    let (b, placement) := b.place a.key
    b.enter a placement

-- The builder goes on to be used whether or not it has taken the assignment.
def tryInstall (b : Builder) (a : Assignment) : Builder × Except ConstructionError Unit :=
  match b.refusal? a.opcode with
  | some error => (b, .error error)
  | none => (b.accept a, .ok ())

def install (b : Builder) (a : Assignment) : Except ConstructionError Builder :=
  match b.tryInstall a with
  | (next, .ok ()) => .ok next
  | (_, .error error) => .error error

def installAll (b : Builder) : List Assignment → Builder × List (Except ConstructionError Unit)
  | [] => (b, [])
  | a :: rest =>
    let (next, result) := b.tryInstall a
    let (last, results) := next.installAll rest
    (last, result :: results)

theorem previous_accept (b : Builder) (a : Assignment) : (b.accept a).previous = some a.opcode := by
  unfold accept
  split <;> rfl

theorem refusal?_eq_none_iff (b : Builder) (opcode : UInt8) :
    b.refusal? opcode = none ↔ ∀ previous ∈ b.previous, previous < opcode := by
  unfold refusal?
  cases b.previous with
  | none => simp
  | some previous =>
    by_cases lower : previous < opcode
    · simp [lower]
    · by_cases same : opcode = previous <;> simp [lower, same]

theorem tryInstall_of_higher {b : Builder} {a : Assignment}
    (higher : ∀ previous ∈ b.previous, previous < a.opcode) :
    b.tryInstall a = (b.accept a, .ok ()) := by
  rw [tryInstall, (refusal?_eq_none_iff b a.opcode).mpr higher]

theorem install_of_higher {b : Builder} {a : Assignment}
    (higher : ∀ previous ∈ b.previous, previous < a.opcode) : b.install a = .ok (b.accept a) := by
  rw [install, tryInstall_of_higher higher]

theorem foldlM_install_of_ascending {assignments : List Assignment} {b : Builder}
    (ascending : assignments.Pairwise (·.opcode < ·.opcode))
    (higher : ∀ a ∈ assignments, ∀ previous ∈ b.previous, previous < a.opcode) :
    assignments.foldlM install b = .ok (assignments.foldl accept b) := by
  induction assignments generalizing b with
  | nil => rfl
  | cons a rest ih =>
    obtain ⟨first, later⟩ := List.pairwise_cons.mp ascending
    rw [List.foldlM_cons, install_of_higher (higher a (List.mem_cons_self ..))]
    refine ih later fun next member previous held => ?_
    rw [previous_accept] at held
    cases held
    exact first next member

end Builder

def Table.build (assignments : List Assignment) : Except ConstructionError Table :=
  (assignments.foldlM Builder.install {}).map (·.table)

theorem Table.build_of_ascending {assignments : List Assignment}
    (ascending : assignments.Pairwise (·.opcode < ·.opcode)) :
    Table.build assignments = .ok (assignments.foldl Builder.accept {}).table := by
  rw [Table.build, Builder.foldlM_install_of_ascending ascending]
  · rfl
  · intro _ _ previous held
    cases held

end Microcode
