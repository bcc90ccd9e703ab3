import Mathlib
import Microcode.Proofs.Table.Installation
import Microcode.Proofs.Table.Sharing
import Microcode.Table.Statistics

namespace Microcode

section

variable {α : Type} [BEq α] [LawfulBEq α]

theorem nodup_eraseDups (list : List α) : list.eraseDups.Nodup := by
  induction list using List.reverseRecOn with
  | nil => exact List.nodup_nil
  | append_singleton front last ih =>
    rw [eraseDups_concat]
    split
    · exact ih
    · rename_i new
      refine ih.append (List.nodup_singleton last) fun x old only => ?_
      cases List.mem_singleton.mp only
      exact new (List.mem_eraseDups.mp old)

theorem length_eraseDups {list names : List α} (once : names.Nodup)
    (same : ∀ x, x ∈ list ↔ x ∈ names) : list.eraseDups.length = names.length := by
  refine ((List.perm_ext_iff_of_nodup (nodup_eraseDups list) once).mpr fun x => ?_).length_eq
  rw [List.mem_eraseDups, same]

end

namespace ProgramKey

def isShared (k : ProgramKey) : Bool :=
  k.program .sixteen == k.program .eight

def widths (k : ProgramKey) : List Width :=
  if k.isShared then [.eight] else [.eight, .sixteen]

def size (k : ProgramKey) : Nat :=
  (k.program .eight).length + 1 + if k.isShared then 0 else (k.program .sixteen).length + 1

theorem isShared_iff (k : ProgramKey) : k.isShared ↔ k.program .eight = k.program .sixteen := by
  rw [isShared, beq_iff_eq, eq_comm]

theorem length_stored (k : ProgramKey) : k.stored.length = k.size := by
  by_cases shared : k.program .sixteen = k.program .eight <;>
    simp [stored, size, isShared, shared]
  omega

theorem count_stored (k : ProgramKey) : k.stored.count .endOfProgram = k.widths.length := by
  have unmarked : ∀ width, (k.program width).count .endOfProgram = 0 := fun width =>
    List.count_eq_zero.mpr (k.mode.endOfProgram_not_mem k.access width)
  by_cases shared : k.program .sixteen = k.program .eight <;>
    simp [stored, widths, isShared, shared, unmarked]

theorem sum_widths (keys : List ProgramKey) :
    (keys.map (·.widths.length)).sum + (keys.filter isShared).length = 2 * keys.length := by
  induction keys with
  | nil => rfl
  | cons k rest ih =>
    by_cases shared : k.isShared <;> simp [widths, shared] at ih ⊢ <;> omega

end ProgramKey

-- Where the programs of an opcode map start in a table. No two keys share a
-- start, nor do the widths of a key unless they share the program.
structure Table.LaidOut (t : Table) (assignments : List Assignment)
    (start : ProgramKey → Width → Nat) : Prop where
  entered_iff : ∀ opcode,
    (∃ e, t.entry? opcode = some e) ↔ ∃ a ∈ assignments, a.opcode = opcode
  found : ∀ a ∈ assignments, ∀ width,
    t.instruction? a.opcode width = some ⟨start a.key width, a.operation⟩
  start_eq_iff : ∀ k ∈ distinctKeys assignments, ∀ l ∈ distinctKeys assignments, ∀ v w,
    start k v = start l w ↔ k = l ∧ (v = w ∨ k.program .eight = k.program .sixteen)

namespace Table.LaidOut

variable {t : Table} {assignments : List Assignment} {start : ProgramKey → Width → Nat}
  {k : ProgramKey}

theorem shared_iff (laid : t.LaidOut assignments start) (known : k ∈ distinctKeys assignments) :
    start k .eight = start k .sixteen ↔ k.isShared := by
  rw [laid.start_eq_iff k known k known, k.isShared_iff]
  simp

theorem mem_starts_iff (laid : t.LaidOut assignments start) (known : k ∈ distinctKeys assignments)
    (n : Nat) : n ∈ k.widths.map (start k) ↔ ∃ width, start k width = n := by
  rw [List.mem_map]
  constructor
  · rintro ⟨width, -, there⟩
    exact ⟨width, there⟩
  · rintro ⟨width, rfl⟩
    by_cases shared : k.isShared
    · have same := (laid.shared_iff known).mpr shared
      refine ⟨.eight, by simp [ProgramKey.widths, shared], ?_⟩
      cases width with
      | eight => rfl
      | sixteen => exact same
    · exact ⟨width, by cases width <;> simp [ProgramKey.widths, shared], rfl⟩

theorem nodup_starts (laid : t.LaidOut assignments start) :
    ((distinctKeys assignments).flatMap fun k => k.widths.map (start k)).Nodup := by
  have once : (distinctKeys assignments).Nodup := nodup_eraseDups _
  refine List.nodup_flatMap.mpr ⟨fun k known => ?_, once.imp_of_mem fun {k l} here there apart => ?_⟩
  · by_cases shared : k.isShared
    · simp [ProgramKey.widths, shared]
    · have differ : start k .eight ≠ start k .sixteen := fun same =>
        shared ((laid.shared_iff known).mp same)
      simp [ProgramKey.widths, shared, differ]
  · intro n first second
    obtain ⟨v, -, rfl⟩ := List.mem_map.mp first
    obtain ⟨w, -, same⟩ := List.mem_map.mp second
    exact apart ((laid.start_eq_iff l there k here w v).mp same).1.symm

theorem nodup_shared (laid : t.LaidOut assignments start) :
    (((distinctKeys assignments).filter ProgramKey.isShared).map (start · .eight)).Nodup := by
  have once : (distinctKeys assignments).Nodup := nodup_eraseDups _
  refine (once.filter _).map_on fun k here l there same => ?_
  exact ((laid.start_eq_iff k (List.mem_filter.mp here).1 l (List.mem_filter.mp there).1 _ _).mp
    same).1

theorem entry_eq (laid : t.LaidOut assignments start) {a : Assignment} (member : a ∈ assignments) :
    t.entry? a.opcode = some ⟨a.operation, start a.key .eight, start a.key .sixteen⟩ := by
  obtain ⟨e, held, one⟩ := Option.map_eq_some_iff.mp (laid.found a member .eight)
  obtain ⟨other, same, two⟩ := Option.map_eq_some_iff.mp (laid.found a member .sixteen)
  rw [held] at same
  cases same
  obtain ⟨first, operation⟩ := Instruction.mk.inj one
  obtain ⟨second, -⟩ := Instruction.mk.inj two
  rw [held, ← first, ← second, ← operation]

theorem mem_entries_iff (laid : t.LaidOut assignments start) (e : Entry) :
    e ∈ t.implemented.map (·.2) ↔
      ∃ a ∈ assignments, e = ⟨a.operation, start a.key .eight, start a.key .sixteen⟩ := by
  simp only [List.mem_map, Prod.exists, exists_eq_right, mem_implemented_iff]
  constructor
  · rintro ⟨opcode, held⟩
    obtain ⟨a, member, rfl⟩ := (laid.entered_iff opcode).mp ⟨e, held⟩
    rw [laid.entry_eq member] at held
    exact ⟨a, member, (Option.some.inj held).symm⟩
  · rintro ⟨a, member, rfl⟩
    exact ⟨a.opcode, laid.entry_eq member⟩

theorem mem_offsets_iff (laid : t.LaidOut assignments start) (n : Nat) :
    n ∈ (t.implemented.map (·.2)).flatMap (fun e => [e.eightOffset, e.sixteenOffset]) ↔
      n ∈ (distinctKeys assignments).flatMap fun k => k.widths.map (start k) := by
  simp only [List.mem_flatMap, laid.mem_entries_iff, List.mem_pair]
  constructor
  · rintro ⟨e, ⟨a, member, rfl⟩, there⟩
    have known : a.key ∈ distinctKeys assignments := mem_distinctKeys.mpr ⟨a, member, rfl⟩
    refine ⟨a.key, known, (laid.mem_starts_iff known n).mpr ?_⟩
    rcases there with rfl | rfl
    · exact ⟨.eight, rfl⟩
    · exact ⟨.sixteen, rfl⟩
  · rintro ⟨k, known, there⟩
    obtain ⟨a, member, rfl⟩ := mem_distinctKeys.mp known
    obtain ⟨width, rfl⟩ := (laid.mem_starts_iff known n).mp there
    refine ⟨_, ⟨a, member, rfl⟩, ?_⟩
    cases width with
    | eight => exact .inl rfl
    | sixteen => exact .inr rfl

theorem mem_shared_iff (laid : t.LaidOut assignments start) (n : Nat) :
    n ∈ ((t.implemented.map (·.2)).filter (·.isShared)).map (·.eightOffset) ↔
      n ∈ ((distinctKeys assignments).filter ProgramKey.isShared).map (start · .eight) := by
  simp only [List.mem_map (f := Entry.eightOffset), List.mem_map (f := (start · .eight)),
    List.mem_filter, laid.mem_entries_iff, Entry.isShared, beq_iff_eq]
  constructor
  · rintro ⟨e, ⟨⟨a, member, rfl⟩, same⟩, rfl⟩
    have known : a.key ∈ distinctKeys assignments := mem_distinctKeys.mpr ⟨a, member, rfl⟩
    exact ⟨a.key, ⟨known, (laid.shared_iff known).mp same⟩, rfl⟩
  · rintro ⟨k, ⟨known, shared⟩, rfl⟩
    obtain ⟨a, member, rfl⟩ := mem_distinctKeys.mp known
    exact ⟨_, ⟨⟨a, member, rfl⟩, (laid.shared_iff known).mpr shared⟩, rfl⟩

end Table.LaidOut

-- What the statistics of a table say of an opcode map. Programs are counted by
-- key: two for each, or one where both widths share it. Each has an end marker.
structure Table.Tallies (t : Table) (assignments : List Assignment) : Prop where
  opcodes : t.statistics.opcodes = assignments.length
  sharedPrograms : t.statistics.sharedPrograms =
    ((distinctKeys assignments).filter ProgramKey.isShared).length
  programs : t.statistics.programs + t.statistics.sharedPrograms =
    2 * (distinctKeys assignments).length
  endMarkers : t.statistics.programs = t.store.toList.count .endOfProgram
  microOps : t.statistics.microOps = ((distinctKeys assignments).map (·.size)).sum

namespace Table

variable {assignments : List Assignment} {t : Table}

theorem laidOut_of_packs {b : Builder} (built : Table.build assignments = .ok b.table)
    (packs : b.Packs (distinctKeys assignments))
    (placed : ∀ a ∈ assignments, ∃ p, b.placement? a.key = some p ∧
      ∀ width, b.table.instruction? a.opcode width = some ⟨p.offset width, a.operation⟩) :
    ∃ start, b.table.LaidOut assignments start := by
  let start := fun k width => ((b.placement? k).getD ⟨0, 0⟩).offset width
  have there : ∀ {k p}, b.placement? k = some p → start k = p.offset := by
    intro k p cached
    funext width
    simp only [start, cached, Option.getD_some]
  refine ⟨start, entry?_isSome_iff_of_build built, ?_, ?_⟩
  · intro a member width
    obtain ⟨p, cached, found⟩ := placed a member
    rw [there cached]
    exact found width
  · intro k first l second v w
    obtain ⟨p, one⟩ := (packs.cached k).mpr first
    obtain ⟨q, two⟩ := (packs.cached l).mpr second
    rw [there one, there two]
    exact packs.apart k l p q one two v w

theorem tallies_of_build (built : Table.build assignments = .ok t) : t.Tallies assignments := by
  obtain ⟨b, rfl, packs, placed⟩ := packs_of_build built
  obtain ⟨start, laid⟩ := laidOut_of_packs built packs placed
  have sharedPrograms : b.table.statistics.sharedPrograms =
      ((distinctKeys assignments).filter ProgramKey.isShared).length :=
    (length_eraseDups laid.nodup_shared laid.mem_shared_iff).trans (List.length_map _)
  have programs : b.table.statistics.programs =
      ((distinctKeys assignments).map (·.widths.length)).sum := by
    refine (length_eraseDups laid.nodup_starts laid.mem_offsets_iff).trans ?_
    simp only [List.length_flatMap, List.length_map]
  have opcodes := congrArg List.length (implemented_opcodes built)
  have length := congrArg List.length packs.store
  rw [Array.length_toList, List.length_flatMap] at length
  constructor
  · simpa [statistics] using opcodes
  · exact sharedPrograms
  · rw [programs, sharedPrograms, ProgramKey.sum_widths]
  · rw [programs, packs.store, List.count_flatMap]
    simp only [Function.comp_def, ProgramKey.count_stored]
  · change b.table.store.size = _
    simpa only [ProgramKey.length_stored] using length

theorem statistics_tally (calls : List Assignment) :
    (∀ t, Table.build calls = .ok t → t.Tallies calls) ∧
      (({} : Builder).installAll calls).1.table.Tallies (({} : Builder).accepted calls) := by
  refine ⟨fun t => tallies_of_build, tallies_of_build ?_⟩
  rw [Table.build, Builder.foldlM_install_accepted]
  rfl

-- Opcode 5 comes too late. Of three keys that remain, the accumulator's has one
-- program for both widths.
theorem statistics_tally_refused :
    let kept : List Assignment :=
      [⟨0x0A, .accumulator, .asl⟩, ⟨0x1A, .accumulator, .inc⟩, ⟨0x85, .direct, .sta⟩,
        ⟨0xA5, .direct, .lda⟩]
    let calls : List Assignment :=
      [⟨0x0A, .accumulator, .asl⟩, ⟨0x05, .direct, .ora⟩, ⟨0x1A, .accumulator, .inc⟩,
        ⟨0x85, .direct, .sta⟩, ⟨0xA5, .direct, .lda⟩]
    let t := (kept.foldl Builder.accept {}).table
    Table.build kept = .ok t ∧ t.Tallies kept ∧
      (({} : Builder).installAll calls).1.table.Tallies kept ∧
      t.statistics = ⟨31, 4, 5, 1⟩ := by
  intro kept calls t
  have built : Table.build kept = .ok t := build_of_ascending (by simp [kept])
  exact ⟨built, (statistics_tally kept).1 t built, (statistics_tally calls).2, by decide +kernel⟩

end Table

end Microcode
