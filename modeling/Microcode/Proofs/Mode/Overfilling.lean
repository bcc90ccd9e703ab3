import Microcode.Bench.Session
import Microcode.Proofs.Execution.Filling
import Microcode.Proofs.Execution.Steps
import Microcode.Proofs.Mode.Prelude

namespace Microcode

namespace AddressingMode

def storesDown (mode : AddressingMode) (width : Width) : Bool :=
  match mode with
  | .absoluteCall | .absoluteLongCall => true
  | _ => mode.isModify && width == .sixteen

theorem finale_of_storesDown {mode : AddressingMode} {width : Width}
    (down : mode.storesDown width = true) (access : Access) :
    ∃ c rest, mode.finale access width = .cycle c :: rest ∧ (c = .push ∨ c = .storeDataDown) := by
  cases mode with
  | absoluteCall | absoluteLongCall =>
    cases access <;> cases width <;> exact ⟨.push, _, rfl, .inl rfl⟩
  | absoluteModify | absoluteXModify | directModify | directXModify =>
    cases width with
    | eight => cases down
    | sixteen => cases access <;> exact ⟨.storeDataDown, _, rfl, .inr rfl⟩
  | _ => cases down

theorem storesDown_of_takesHighest (mode : AddressingMode) (access : Access) (width : Width) :
    ∀ u ∈ mode.finale access width, u.takesHighest = true → mode.storesDown width = true := by
  cases mode <;> cases access <;> cases width <;> decide

end AddressingMode

section

variable {β ε : Type} [Bus β] [Executor ε]

theorem leads_to_call (mode : AddressingMode) (access : Access) (operation : Operation)
    {width : Width} {start : Run β ε} (fresh : start.state.Fresh) :
    ∃ called, Leads operation width (mode.prelude access width) start called := by
  obtain ⟨f, after, fits, -⟩ := AddressingMode.fits_of_split (mode.program_eq access width)
  obtain ⟨called, leads, -⟩ :=
    leads_of_fits (mode.perform_not_mem_prelude access width) fits fresh.fills
  exact ⟨called, leads⟩

def Run.Overfills (r : Run β ε) (operation : Operation) (width : Width) : Prop :=
  4 < (r.afterCall operation width).state.dataBuffer.size.toNat

namespace Table

-- The executor does not get another pass and leaves more than four bytes, where
-- the next store wants the highest of them.
structure Overruns (t : Table) (a : Assignment) (width : Width) (m : Machine β ε) (steps : Nat)
    (called : Run β ε) : Prop where
  calls : t.Calls a.opcode width m steps called
  goesOn : ¬ called.repeats a.operation width
  overfills : called.Overfills a.operation width
  storesDown : a.mode.storesDown width = true

structure RefusesStore (t : Table) (opcode : UInt8) (width : Width) (m : Machine β ε) (steps : Nat)
    (before after : Run β ε) : Prop where
  meets : ∃ position c, t.Meets opcode width m steps position (.cycle c) before ∧
    (c = .push ∨ c = .storeDataDown)
  faults : ∀ limit, steps < limit →
    t.dispatch limit opcode width m = (.faulted .byteOutOfReach, after)
  unseen : after.bus = before.bus ∧ after.events = before.events ∧ after.cycles = before.cycles

namespace Holds

variable {t : Table} {a : Assignment} {width : Width} {offset : Nat} {m : Machine β ε}
  {steps : Nat} {called r : Run β ε}

theorem leads_or_overruns (holds : t.Holds a width offset) {start : Run β ε}
    (begins : t.PassBegins a.opcode width m steps start)
    (leads : Leads a.operation width (a.mode.prelude a.operation.access width) start called)
    (once : ¬ called.repeats a.operation width) :
    (∃ next, Leads a.operation width (a.mode.finale a.operation.access width)
      (called.afterCall a.operation width) next) ∨
    t.Overruns a width m (steps + (a.mode.prelude a.operation.access width).length) called := by
  have fresh := holds.fresh_of_passBegins begins
  have split := a.mode.program_eq a.operation.access width
  have clear := skipNext_behind_call a.operation fresh split leads
  by_cases room : ∀ u ∈ a.mode.finale a.operation.access width, u.takesHighest = true →
      (called.afterCall a.operation width).state.dataBuffer.size.toNat ≤ 4
  · have settles := a.mode.finale_settles a.operation.access width
    exact .inl (leads_of_room a.operation width settles clear room)
  · push Not at room
    obtain ⟨u, member, takes, many⟩ := room
    have down := a.mode.storesDown_of_takesHighest a.operation.access width u member takes
    exact .inr ⟨holds.calls begins split leads, once, many, down⟩

theorem refusesStore_of_overruns (holds : t.Holds a width offset)
    (overruns : t.Overruns a width m steps called) :
    ∃ after, t.RefusesStore a.opcode width m (steps + 1) (called.afterCall a.operation width)
      after := by
  obtain ⟨position, meets⟩ := (calls_iff ..).mp overruns.calls
  obtain ⟨start, behind, ahead, starts, split, leads, rfl⟩ := holds.parts_of_meets meets nofun
  have fresh := starts.fresh m.state.beginInstruction_fresh
  have clear := skipNext_behind_call a.operation fresh split leads
  obtain ⟨c, rest, finale, down⟩ :=
    AddressingMode.finale_of_storesDown overruns.storesDown a.operation.access
  have next : ahead = .cycle c :: rest := (AddressingMode.parts_of_split split).2.trans finale
  subst next
  have takes : (MicroOp.cycle c).takesHighest = true := by
    rcases down with rfl | rfl <;> rfl
  have onward := holds.dispatch_of_meets meets
  rw [Run.step_perform_of_not_repeats overruns.goesOn] at onward
  have read := holds.placed.read (split.trans (List.append_cons ..))
  rw [List.length_append, List.length_singleton, ← Nat.add_assoc] at read
  have store : t.Meets a.opcode width m (steps + 1) (offset + behind.length + 1) (.cycle c)
      (called.afterCall a.operation width) := ⟨onward, read⟩
  obtain ⟨after, stepped⟩ := Run.step_overfilled a.operation width takes clear overruns.overfills
  have failed := holds.dispatch_of_meets store
  rw [stepped] at failed
  refine ⟨(called.afterCall a.operation width).withDatapath after,
    ⟨⟨_, c, store, down⟩, fun limit more => ?_, rfl, rfl, rfl⟩⟩
  obtain ⟨extra, rfl⟩ := Nat.exists_eq_add_of_lt more
  have final : (t.dispatch (steps + 1 + 1) a.opcode width m).1.isFinal := by
    rw [failed]
    rfl
  rw [Nat.add_right_comm, holds.dispatch_of_final final, failed]
  rfl

theorem overruns_of_faulted (holds : t.Holds a width offset) {limit : Nat} {cause : Fault}
    (ended : t.dispatch limit a.opcode width m = (.faulted cause, r)) :
    ∃ steps called, t.Overruns a width m steps called := by
  have stops := holds.stops limit m
  rw [ended] at stops
  obtain ⟨start, behind, u, ahead, middle, starts, split, leads, faulted⟩ := stops.faulted_parts
  have fresh := starts.fresh m.state.beginInstruction_fresh
  rcases AddressingMode.split_cases split with ⟨rest, before⟩ | ⟨rfl, -⟩ | ⟨front, rfl, finale⟩
  · obtain ⟨called, through⟩ := leads_to_call a.mode a.operation.access a.operation fresh
    rw [before] at through
    exact absurd faulted (through.step_ne_fault leads)
  · exact absurd faulted Run.perform_ne_fault
  · obtain ⟨called, through, later⟩ := leads.split
    obtain ⟨steps, begins⟩ := holds.passBegins_of_starts starts
    cases later with
    | cons performed later =>
      obtain ⟨once, rfl⟩ := Run.of_performed performed
      rcases holds.leads_or_overruns begins through once with ⟨next, onward⟩ | overruns
      · rw [finale] at onward
        exact absurd faulted (onward.step_ne_fault later)
      · exact ⟨_, called, overruns⟩

theorem completes_of_room (holds : t.Holds a width offset) {start : Run β ε}
    (begins : t.PassBegins a.opcode width m steps start)
    (leads : Leads a.operation width (a.mode.prelude a.operation.access width) start called)
    (once : ¬ called.repeats a.operation width) (room : ¬ called.Overfills a.operation width)
    {limit : Nat} (enough : steps + (a.mode.program a.operation.access width).length < limit) :
    ∃ r, t.dispatch limit a.opcode width m = (.completed, r) ∧
      Leads a.operation width (a.mode.finale a.operation.access width)
        (called.afterCall a.operation width) r := by
  have split := a.mode.program_eq a.operation.access width
  obtain ⟨r, later⟩ := (holds.leads_or_overruns begins leads once).resolve_right
    fun overruns => room overruns.overfills
  exact ⟨r, holds.completes_after_call begins split leads once later enough, later⟩

-- Constructions come before the call, where the buffers hold what was fetched.
theorem aims_of_meets (holds : t.Holds a width offset) {position : Nat} {c : Construction}
    (meets : t.Meets a.opcode width m steps position (.construct c) r) :
    c.sum r.state < 0x100000000 ∧
      ∃ after, c.apply r.state = .ok after ∧ after.toDatapath.AimsAt (c.sum r.state) := by
  obtain ⟨start, behind, ahead, starts, split, leads, -⟩ := holds.parts_of_meets meets nofun
  have fresh := starts.fresh m.state.beginInstruction_fresh
  rcases AddressingMode.split_cases split with ⟨rest, prelude⟩ | ⟨other, -⟩ | ⟨front, -, finale⟩
  · have own : .perform ∉ behind := by
      have never := a.mode.perform_not_mem_prelude a.operation.access width
      rw [prelude] at never
      exact fun member => never (by simp [member])
    obtain ⟨f, after, before, fits⟩ := AddressingMode.fits_of_place split
    obtain ⟨reached, again, fills⟩ := leads_of_fits own before fresh.fills
    cases again.functional leads
    obtain ⟨aimed, applied, -⟩ := Construction.apply_leaves fits fills
    exact ⟨Construction.sum_lt fits fills, aimed, applied, Construction.apply_aimsAt applied⟩
  · cases other
  · have settles := a.mode.finale_settles a.operation.access width (.construct c) (by simp [finale])
    cases settles

end Holds

-- What is left of the ways to fault: no fetched byte finds a buffer full, no sum
-- of an address leaves 32 bits, and no position lies outside the store.
structure FaultsOnlyOverrun (t : Table) (assignments : List Assignment) (opcode : UInt8)
    (width : Width) (m : Machine β ε) : Prop where
  faults_iff : (∃ limit cause r, t.dispatch limit opcode width m = (.faulted cause, r)) ↔
    ∃ a ∈ assignments, a.opcode = opcode ∧ ∃ steps called, t.Overruns a width m steps called
  cause : ∀ limit cause r, t.dispatch limit opcode width m = (.faulted cause, r) →
    cause = .byteOutOfReach
  refuses : ∀ a ∈ assignments, a.opcode = opcode → ∀ steps called,
    t.Overruns a width m steps called →
      ∃ after, t.RefusesStore opcode width m (steps + 1) (called.afterCall a.operation width) after
  sums : ∀ steps position c r, t.Meets opcode width m steps position (.construct c) r →
    c.sum r.state < 0x100000000 ∧
      ∃ after, c.apply r.state = .ok after ∧ after.toDatapath.AimsAt (c.sum r.state)

theorem faults_only_overrun {assignments : List Assignment} {t : Table}
    (built : Table.build assignments = .ok t) (opcode : UInt8) (width : Width) (m : Machine β ε) :
    t.FaultsOnlyOverrun assignments opcode width m := by
  constructor
  · constructor
    · rintro ⟨limit, cause, r, ended⟩
      obtain ⟨a, assigned, rfl⟩ := assigned_of_dispatch built ended nofun
      obtain ⟨offset, holds⟩ := holds_of_build built assigned width
      exact ⟨a, assigned, rfl, holds.overruns_of_faulted ended⟩
    · rintro ⟨a, assigned, rfl, steps, called, overruns⟩
      obtain ⟨offset, holds⟩ := holds_of_build built assigned width
      obtain ⟨after, refuses⟩ := holds.refusesStore_of_overruns overruns
      exact ⟨_, _, _, refuses.faults _ (Nat.lt_succ_self _)⟩
  · intro limit cause r ended
    obtain ⟨a, assigned, rfl⟩ := assigned_of_dispatch built ended nofun
    obtain ⟨offset, holds⟩ := holds_of_build built assigned width
    obtain ⟨steps, called, overruns⟩ := holds.overruns_of_faulted ended
    obtain ⟨after, refuses⟩ := holds.refusesStore_of_overruns overruns
    -- A dispatch that has ended is the same under any higher limit.
    have later := holds.dispatch_of_final (by rw [ended]; rfl) (steps + 2)
    rw [refuses.faults _ (by omega), ended] at later
    cases later
    rfl
  · rintro a assigned rfl steps called overruns
    obtain ⟨offset, holds⟩ := holds_of_build built assigned width
    exact holds.refusesStore_of_overruns overruns
  · intro steps position c r meets
    obtain ⟨a, assigned, rfl⟩ := assigned_of_dispatch built meets.stands nofun
    obtain ⟨offset, holds⟩ := holds_of_build built assigned width
    exact holds.aims_of_meets meets

theorem faults_only_overrun_call :
    let calls : List Assignment := [⟨0x20, .absoluteCall, .jsr⟩]
    let t := (calls.foldl Builder.accept {}).table
    let m : Machine Bench.Memory Bench.Player :=
      { state := .ofRegisters { s := 0x01FF }, bus := {}
        executor := { scripts := [[.act (.dataBuffer (.set 0 5))]] } }
    Table.build calls = .ok t ∧ t.FaultsOnlyOverrun calls 0x20 .sixteen m ∧
      (t.dispatch 20 0x20 .sixteen m).1 = .faulted .byteOutOfReach ∧
      (t.dispatch 20 0x20 .sixteen m).2.cycles = 3 := by
  intro calls t m
  have built : Table.build calls = .ok t := build_of_ascending (List.pairwise_singleton _ _)
  exact ⟨built, faults_only_overrun built 0x20 .sixteen m, by decide +kernel, by decide +kernel⟩

end Table

end

end Microcode
