import Microcode.Proofs.Table.Placement

namespace Microcode

def Placement.offset (p : Placement) : Width → Nat
  | .eight => p.eightOffset
  | .sixteen => p.sixteenOffset

namespace Builder

theorem append_grows (store : Array MicroOp) (p : Program) :
    store.toList <+: (append store p).toList := by
  rw [toList_append]
  exact List.prefix_append _ _

theorem store_place (b : Builder) (k : ProgramKey) :
    (b.place k).1.table.store = (generate b.table.store k).1 := rfl

theorem placement_place (b : Builder) (k : ProgramKey) :
    (b.place k).2 = (generate b.table.store k).2 := rfl

theorem place_grows (b : Builder) (k : ProgramKey) :
    b.table.store.toList <+: (b.place k).1.table.store.toList := by
  rw [store_place, generate_eq]
  split
  · exact append_grows _ _
  · exact (append_grows _ _).trans (append_grows _ _)

theorem place_placed (b : Builder) (k : ProgramKey) (width : Width) :
    Placed (b.place k).1.table.store ((b.place k).2.offset width) (k.program width) := by
  rw [store_place, placement_place, generate_eq]
  split
  · rename_i shared
    cases width with
    | eight => exact .at_end _ _
    | sixteen =>
      rw [shared]
      exact .at_end _ _
  · cases width with
    | eight => exact (Placed.at_end _ _).extend (append_grows _ _)
    | sixteen => exact .at_end _ _

theorem place_placement? (b : Builder) (k other : ProgramKey) :
    (b.place k).1.placement? other =
      (b.placement? other).or (if other = k then some (b.place k).2 else none) := by
  unfold placement? place
  rw [List.lookup_append]
  congr 1
  by_cases same : other = k
  · simp [same]
  · have apart : (other == k) = false := beq_false_of_ne same
    simp [List.lookup_cons, same, apart]

end Builder

-- What a builder that took some assignments offers for them. Every key in the
-- cache has its programs in the store; every opcode taken has the entry of its
-- key, and no other opcode has one.
structure Builder.Serves (b : Builder) (assignments : List Assignment) : Prop where
  placed : ∀ k p, b.placement? k = some p → ∀ width,
    Placed b.table.store (p.offset width) (k.program width)
  assigned : ∀ a ∈ assignments, ∃ p, b.placement? a.key = some p ∧
    b.table.entry? a.opcode = some ⟨a.operation, p.eightOffset, p.sixteenOffset⟩
  unassigned : ∀ opcode, (∀ a ∈ assignments, a.opcode ≠ opcode) → b.table.entry? opcode = none

theorem Table.entry?_eq_getElem (t : Table) (opcode : UInt8) :
    t.entry? opcode = t.entries[opcode.toFin] := rfl

namespace Builder

theorem serves_empty : ({} : Builder).Serves [] where
  placed := by
    intro k p cached
    cases cached
  assigned := by simp
  unassigned := by
    intro opcode _
    rw [Table.entry?_eq_getElem]
    simp [Table.empty]

theorem entry?_enter (b : Builder) (a : Assignment) (p : Placement) (opcode : UInt8) :
    (b.enter a p).table.entry? opcode =
      if a.opcode = opcode then some ⟨a.operation, p.eightOffset, p.sixteenOffset⟩
      else b.table.entry? opcode := by
  rw [Table.entry?_eq_getElem, Table.entry?_eq_getElem]
  simp only [enter, Fin.getElem_fin, Vector.getElem_set]
  by_cases same : a.opcode = opcode
  · subst same
    simp
  · have apart : a.opcode.toNat ≠ opcode.toNat := fun equal => same (UInt8.toNat_inj.mp equal)
    simp [same, apart]

-- Placing a key that the cache lacks keeps what was there, since the store only
-- grows and the new key comes last.
theorem serves_place {b : Builder} {assignments : List Assignment} (serves : b.Serves assignments)
    {k : ProgramKey} (absent : b.placement? k = none) : (b.place k).1.Serves assignments where
  placed := by
    intro other p cached width
    rw [place_placement?] at cached
    cases old : b.placement? other with
    | some q =>
      rw [old, Option.some_or] at cached
      cases cached
      exact (serves.placed other p old width).extend (place_grows b k)
    | none =>
      rw [old, Option.none_or] at cached
      split at cached
      · rename_i same
        subst same
        cases cached
        exact place_placed b other width
      · cases cached
  assigned := by
    intro a member
    obtain ⟨p, cached, entry⟩ := serves.assigned a member
    refine ⟨p, ?_, entry⟩
    rw [place_placement?, cached, Option.some_or]
  unassigned := serves.unassigned

theorem serves_enter {b : Builder} {assignments : List Assignment} (serves : b.Serves assignments)
    {a : Assignment} (fresh : ∀ old ∈ assignments, old.opcode ≠ a.opcode) {p : Placement}
    (cached : b.placement? a.key = some p) : (b.enter a p).Serves (assignments ++ [a]) where
  placed := serves.placed
  assigned := by
    intro next member
    rcases List.mem_append.mp member with old | new
    · obtain ⟨q, known, entry⟩ := serves.assigned next old
      refine ⟨q, known, ?_⟩
      rw [entry?_enter, if_neg (fresh next old).symm, entry]
    · cases List.mem_singleton.mp new
      exact ⟨p, cached, by rw [entry?_enter, if_pos rfl]⟩
  unassigned := by
    intro opcode free
    rw [entry?_enter, if_neg (free a (by simp))]
    exact serves.unassigned opcode fun old member => free old (List.mem_append_left _ member)

theorem serves_accept {b : Builder} {assignments : List Assignment} (serves : b.Serves assignments)
    {a : Assignment} (fresh : ∀ old ∈ assignments, old.opcode ≠ a.opcode) :
    (b.accept a).Serves (assignments ++ [a]) := by
  unfold accept
  cases cached : b.placement? a.key with
  | some p => exact serves_enter serves fresh cached
  | none =>
    refine serves_enter (serves_place serves cached) fresh ?_
    rw [place_placement?, cached, Option.none_or, if_pos rfl]
    rfl

theorem serves_foldl {b : Builder} {done rest : List Assignment} (serves : b.Serves done)
    (ascending : (done ++ rest).Pairwise (·.opcode < ·.opcode)) :
    (rest.foldl accept b).Serves (done ++ rest) := by
  induction rest generalizing b done with
  | nil => simpa using serves
  | cons a rest ih =>
    have fresh : ∀ old ∈ done, old.opcode ≠ a.opcode := fun old member =>
      UInt8.ne_of_lt ((List.pairwise_append.mp ascending).2.2 old member a (by simp))
    have next := ih (serves_accept serves fresh) (by simpa using ascending)
    simpa using next

theorem install_eq_ok {b next : Builder} {a : Assignment} (installed : b.install a = .ok next) :
    (∀ previous ∈ b.previous, previous < a.opcode) ∧ next = b.accept a := by
  rw [install, tryInstall] at installed
  cases refused : b.refusal? a.opcode with
  | some error =>
    rw [refused] at installed
    cases installed
  | none =>
    rw [refused] at installed
    cases installed
    exact ⟨(refusal?_eq_none_iff b a.opcode).mp refused, rfl⟩

theorem foldlM_install_eq_ok {assignments : List Assignment} {b next : Builder}
    (installed : assignments.foldlM install b = .ok next) :
    assignments.Pairwise (·.opcode < ·.opcode) ∧
      (∀ a ∈ assignments, ∀ previous ∈ b.previous, previous < a.opcode) ∧
      next = assignments.foldl accept b := by
  induction assignments generalizing b with
  | nil =>
    cases installed
    simp
  | cons a rest ih =>
    rw [List.foldlM_cons] at installed
    cases first : b.install a with
    | error error =>
      rw [first] at installed
      cases installed
    | ok middle =>
      rw [first] at installed
      obtain ⟨higher, rfl⟩ := install_eq_ok first
      obtain ⟨later, above, rfl⟩ := ih installed
      rw [previous_accept] at above
      have follows : ∀ next ∈ rest, a.opcode < next.opcode := fun next member =>
        above next member a.opcode rfl
      refine ⟨List.pairwise_cons.mpr ⟨follows, later⟩, ?_, rfl⟩
      intro next member previous held
      rcases List.mem_cons.mp member with rfl | old
      · exact higher previous held
      · exact UInt8.lt_trans (higher previous held) (follows next old)

end Builder

theorem Table.build_eq_ok_iff {assignments : List Assignment} {t : Table} :
    Table.build assignments = .ok t ↔
      assignments.Pairwise (·.opcode < ·.opcode) ∧
        t = (assignments.foldl Builder.accept {}).table := by
  constructor
  · intro built
    unfold Table.build at built
    cases installed : assignments.foldlM Builder.install {} with
    | error error =>
      rw [installed] at built
      cases built
    | ok b =>
      rw [installed] at built
      cases built
      obtain ⟨ascending, -, rfl⟩ := Builder.foldlM_install_eq_ok installed
      exact ⟨ascending, rfl⟩
  · rintro ⟨ascending, rfl⟩
    exact Table.build_of_ascending ascending

end Microcode
