import Microcode.Proofs.Table.Contents

namespace Microcode

def ProgramKey.stored (k : ProgramKey) : List MicroOp :=
  k.program .eight ++ [.endOfProgram] ++
    if k.program .sixteen = k.program .eight then [] else k.program .sixteen ++ [.endOfProgram]

def distinctKeys (assignments : List Assignment) : List ProgramKey :=
  (assignments.map (·.key)).eraseDups

theorem eraseDups_concat {α : Type} [BEq α] [LawfulBEq α] (keys : List α) (k : α) :
    (keys ++ [k]).eraseDups = if k ∈ keys then keys.eraseDups else keys.eraseDups ++ [k] := by
  rw [List.eraseDups_append, List.removeAll]
  by_cases known : k ∈ keys
  · simp [known]
  · simp [known, List.eraseDups_cons]

theorem distinctKeys_concat (done : List Assignment) (a : Assignment) :
    distinctKeys (done ++ [a]) =
      if a.key ∈ distinctKeys done then distinctKeys done else distinctKeys done ++ [a.key] := by
  simp only [distinctKeys, List.map_append, List.map_cons, List.map_nil, eraseDups_concat,
    List.mem_eraseDups]

theorem mem_distinctKeys {assignments : List Assignment} {k : ProgramKey} :
    k ∈ distinctKeys assignments ↔ ∃ a ∈ assignments, a.key = k := by
  simp [distinctKeys]

def Seam (store : Array MicroOp) (i : Nat) : Prop :=
  i = 0 ∨ store[i - 1]? = some .endOfProgram

def BeginsSegment (store : Array MicroOp) (i : Nat) : Prop :=
  i < store.size ∧ Seam store i

namespace Builder

variable {store : Array MicroOp} {p : Program}

theorem getElem?_append_of_lt {i : Nat} (inside : i < store.size) :
    (append store p)[i]? = store[i]? := by
  rw [← Array.getElem?_toList, ← Array.getElem?_toList, toList_append,
    List.getElem?_append_left (by simpa using inside)]

theorem seam_append (store : Array MicroOp) (p : Program) :
    Seam (append store p) (append store p).size := by
  right
  have last := (Placed.at_end store p).getElem? (Nat.le_refl p.length)
  rw [size_append, Nat.add_sub_cancel, last]
  simp

theorem beginsSegment_append (closed : Seam store store.size) (unmarked : MicroOp.endOfProgram ∉ p)
    (i : Nat) :
    BeginsSegment (append store p) i ↔ BeginsSegment store i ∨ i = store.size := by
  constructor
  · rintro ⟨inside, seam⟩
    rw [size_append] at inside
    rcases Nat.lt_trichotomy i store.size with before | same | behind
    · left
      refine ⟨before, seam.imp_right fun marked => ?_⟩
      rwa [getElem?_append_of_lt (by omega)] at marked
    · exact .inr same
    · exfalso
      obtain ⟨j, rfl⟩ := Nat.exists_eq_add_of_lt behind
      have read := (Placed.at_end store p).getElem? (show j ≤ p.length by omega)
      rcases seam with zero | marked
      · omega
      · rw [Nat.add_sub_cancel, read, List.getElem?_append_left (by omega)] at marked
        exact unmarked (List.mem_of_getElem? marked)
  · intro begins
    rw [BeginsSegment, size_append]
    rcases begins with ⟨inside, seam⟩ | rfl
    · refine ⟨by omega, seam.imp_right fun marked => ?_⟩
      rwa [getElem?_append_of_lt (by omega)]
    · refine ⟨by omega, ?_⟩
      rcases Nat.eq_zero_or_pos store.size with zero | positive
      · exact .inl zero
      · exact closed.imp_right fun marked => by rwa [getElem?_append_of_lt (by omega)]

section

variable (b : Builder) (k : ProgramKey)

theorem toList_store_place :
    (b.place k).1.table.store.toList = b.table.store.toList ++ k.stored := by
  rw [store_place, generate_eq]
  split <;> simp_all [toList_append, ProgramKey.stored]

theorem place_offset_ge (width : Width) : b.table.store.size ≤ (b.place k).2.offset width := by
  rw [placement_place, generate_eq]
  cases width with
  | eight => split <;> exact Nat.le_refl _
  | sixteen =>
    split
    · exact Nat.le_refl _
    · simp only [Placement.offset, size_append]
      omega

theorem place_offset_eq_iff (v w : Width) :
    (b.place k).2.offset v = (b.place k).2.offset w ↔
      v = w ∨ k.program .eight = k.program .sixteen := by
  have further : b.table.store.size ≠ (append b.table.store (k.program .eight)).size := by
    rw [size_append]
    omega
  rw [eq_comm (a := k.program .eight)]
  by_cases same : k.program .sixteen = k.program .eight <;> cases v <;> cases w <;>
    simp [placement_place, generate_eq, Placement.offset, same, further, further.symm]

theorem place_closed : Seam (b.place k).1.table.store (b.place k).1.table.store.size := by
  rw [store_place, generate_eq]
  split
  · exact seam_append _ _
  · exact seam_append _ _

theorem place_beginsSegment (closed : Seam b.table.store b.table.store.size) (i : Nat) :
    BeginsSegment (b.place k).1.table.store i ↔
      BeginsSegment b.table.store i ∨ ∃ width, (b.place k).2.offset width = i := by
  have unmarked : ∀ width, MicroOp.endOfProgram ∉ k.program width :=
    k.mode.endOfProgram_not_mem k.access
  have widths : ∀ f : Width → Nat, (∃ width, f width = i) ↔ i = f .eight ∨ i = f .sixteen := by
    intro f
    constructor
    · rintro ⟨_ | _, rfl⟩ <;> simp
    · rintro (rfl | rfl)
      · exact ⟨.eight, rfl⟩
      · exact ⟨.sixteen, rfl⟩
  rw [widths]
  simp only [store_place, placement_place, generate_eq, Placement.offset]
  split
  · rw [beginsSegment_append closed (unmarked .eight), or_self]
  · rw [beginsSegment_append (seam_append _ _) (unmarked .sixteen),
      beginsSegment_append closed (unmarked .eight), or_assoc]

end

-- How a builder has laid out the programs of some keys. No program stands in the
-- store that no key asked for, and no two keys share one.
structure Packs (b : Builder) (keys : List ProgramKey) : Prop where
  store : b.table.store.toList = keys.flatMap (·.stored)
  cached : ∀ k, (∃ p, b.placement? k = some p) ↔ k ∈ keys
  closed : Seam b.table.store b.table.store.size
  segments : ∀ i, BeginsSegment b.table.store i ↔
    ∃ k p, b.placement? k = some p ∧ ∃ width, p.offset width = i
  apart : ∀ k l p q, b.placement? k = some p → b.placement? l = some q → ∀ v w,
    (p.offset v = q.offset w ↔ k = l ∧ (v = w ∨ k.program .eight = k.program .sixteen))

theorem packs_empty : ({} : Builder).Packs [] where
  store := rfl
  cached := by simp [placement?]
  closed := .inl rfl
  segments := by simp [placement?, BeginsSegment, Table.empty]
  apart := by simp [placement?]

namespace Packs

variable {b : Builder} {keys : List ProgramKey} {k : ProgramKey}

theorem offset_lt (packs : b.Packs keys) {p : Placement} (cached : b.placement? k = some p)
    (width : Width) : p.offset width < b.table.store.size :=
  ((packs.segments _).mpr ⟨k, p, cached, width, rfl⟩).1

theorem placement?_place (absent : b.placement? k = none) {l : ProgramKey} {p : Placement} :
    (b.place k).1.placement? l = some p ↔
      b.placement? l = some p ∨ l = k ∧ p = (b.place k).2 := by
  rw [place_placement?]
  by_cases same : l = k
  · subst same
    simp [absent, eq_comm]
  · simp [same]

theorem place (packs : b.Packs keys) (absent : b.placement? k = none) :
    (b.place k).1.Packs (keys ++ [k]) where
  store := by
    rw [toList_store_place, packs.store]
    simp
  cached := by
    intro l
    simp only [placement?_place absent, exists_or, packs.cached, List.mem_append,
      List.mem_singleton]
    simp
  closed := place_closed b k
  segments := by
    intro i
    rw [place_beginsSegment b k packs.closed, packs.segments]
    simp only [placement?_place absent]
    constructor
    · rintro (⟨l, p, cached, there⟩ | there)
      · exact ⟨l, p, .inl cached, there⟩
      · exact ⟨k, _, .inr ⟨rfl, rfl⟩, there⟩
    · rintro ⟨l, p, cached | ⟨rfl, rfl⟩, there⟩
      · exact .inl ⟨l, p, cached, there⟩
      · exact .inr there
  apart := by
    intro l l' p q one two v w
    -- What was placed before lies below the end that the store had.
    have old : ∀ {l p}, b.placement? l = some p →
        l ≠ k ∧ ∀ v w, p.offset v ≠ (b.place k).2.offset w := by
      intro l p cached
      refine ⟨?_, fun v w same => ?_⟩
      · rintro rfl
        rw [absent] at cached
        cases cached
      · have inside := packs.offset_lt cached v
        have behind := place_offset_ge b k w
        omega
    rw [placement?_place absent] at one two
    rcases one with one | ⟨rfl, rfl⟩ <;> rcases two with two | ⟨rfl, rfl⟩
    · exact packs.apart l l' p q one two v w
    · simp [(old one).1, (old one).2 v w]
    · simp [(old two).1.symm, ((old two).2 w v).symm]
    · simp [place_offset_eq_iff]

theorem enter (packs : b.Packs keys) (a : Assignment) (p : Placement) : (b.enter a p).Packs keys :=
  ⟨packs.store, packs.cached, packs.closed, packs.segments, packs.apart⟩

theorem accept (packs : b.Packs keys) (a : Assignment) :
    (b.accept a).Packs (if a.key ∈ keys then keys else keys ++ [a.key]) := by
  have known := packs.cached a.key
  unfold Builder.accept
  cases cached : b.placement? a.key with
  | some p =>
    rw [if_pos (known.mp ⟨p, cached⟩)]
    exact packs.enter a p
  | none =>
    rw [if_neg fun member => by simpa [cached] using known.mpr member]
    exact (packs.place cached).enter a _

theorem foldl {done : List Assignment} (packs : b.Packs (distinctKeys done))
    (rest : List Assignment) :
    (rest.foldl Builder.accept b).Packs (distinctKeys (done ++ rest)) := by
  induction rest generalizing b done with
  | nil => simpa using packs
  | cons a rest ih =>
    have next := packs.accept a
    rw [← distinctKeys_concat] at next
    simpa using ih next

end Packs

end Builder

structure Table.Deduplicated (t : Table) (assignments : List Assignment) : Prop where
  store : t.store.toList = (distinctKeys assignments).flatMap (·.stored)
  offsets : ∀ a ∈ assignments, ∀ b ∈ assignments, ∀ v w, ∃ i j,
    t.instruction? a.opcode v = some ⟨i, a.operation⟩ ∧
    t.instruction? b.opcode w = some ⟨j, b.operation⟩ ∧
    (i = j ↔ a.key = b.key ∧ (v = w ∨ a.key.program .eight = a.key.program .sixteen))
  segments : ∀ i, BeginsSegment t.store i ↔
    ∃ a ∈ assignments, ∃ width, t.instruction? a.opcode width = some ⟨i, a.operation⟩

namespace Table

variable {assignments : List Assignment} {t : Table}

theorem packs_of_build (built : Table.build assignments = .ok t) :
    ∃ b : Builder, b.table = t ∧ b.Packs (distinctKeys assignments) ∧
      ∀ a ∈ assignments, ∃ p, b.placement? a.key = some p ∧
        ∀ width, t.instruction? a.opcode width = some ⟨p.offset width, a.operation⟩ := by
  obtain ⟨ascending, rfl⟩ := build_eq_ok_iff.mp built
  have serves := Builder.serves_foldl Builder.serves_empty ascending
  have none : ({} : Builder).Packs (distinctKeys []) := Builder.packs_empty
  refine ⟨_, rfl, none.foldl assignments, ?_⟩
  intro a member
  obtain ⟨p, cached, entry⟩ := serves.assigned a member
  refine ⟨p, cached, fun width => ?_⟩
  rw [Table.instruction?, entry, Option.map_some, Entry.forWidth_eq]

theorem build_deduplicated (built : Table.build assignments = .ok t) :
    t.Deduplicated assignments := by
  obtain ⟨b, rfl, packs, placed⟩ := packs_of_build built
  refine ⟨packs.store, ?_, ?_⟩
  · intro a first other second v w
    obtain ⟨p, one, found⟩ := placed a first
    obtain ⟨q, two, there⟩ := placed other second
    exact ⟨_, _, found v, there w, packs.apart _ _ p q one two v w⟩
  · intro i
    rw [packs.segments]
    constructor
    · rintro ⟨k, p, cached, width, rfl⟩
      obtain ⟨a, member, rfl⟩ := mem_distinctKeys.mp ((packs.cached k).mp ⟨p, cached⟩)
      obtain ⟨q, same, found⟩ := placed a member
      rw [cached] at same
      cases same
      exact ⟨a, member, width, found width⟩
    · rintro ⟨a, member, width, found⟩
      obtain ⟨p, cached, there⟩ := placed a member
      rw [there] at found
      cases found
      exact ⟨a.key, p, cached, width, rfl⟩

-- Both widths of the accumulator's program are one, but a read and a write keep
-- programs of their own although these are alike.
theorem build_deduplicated_alike :
    let assignments : List Assignment :=
      [⟨0x0A, .accumulator, .asl⟩, ⟨0x64, .accumulator, .stz⟩, ⟨0x85, .direct, .sta⟩,
        ⟨0x9A, .accumulator, .stx⟩]
    let t := (assignments.foldl Builder.accept {}).table
    Table.build assignments = .ok t ∧ t.Deduplicated assignments ∧
      (∀ width, t.program 0x0A width = .ok (AddressingMode.accumulator.program .write .eight)) ∧
      ∀ width, (t.instruction? 0x0A width).map (·.offset) = some 0 ∧
        (t.instruction? 0x64 width).map (·.offset) = some 5 ∧
        (t.instruction? 0x9A width).map (·.offset) = some 5 := by
  intro assignments t
  have built : Table.build assignments = .ok t := build_of_ascending (by simp [assignments])
  exact ⟨built, build_deduplicated built, by decide, by decide⟩

end Table

end Microcode
