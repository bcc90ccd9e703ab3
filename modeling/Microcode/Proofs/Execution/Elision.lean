import Microcode.Bench.Session
import Microcode.Proofs.Execution.Cycles
import Microcode.Proofs.Execution.FlatMemory
import Microcode.Proofs.Execution.Steps

namespace Microcode

theorem AddressingMode.card_marked (mode : AddressingMode) (access : Access) (width : Width) :
    ((Finset.range ((mode.program access width).length + 1)).filter fun i =>
      Program.marked false ((mode.program access width).take i) = true).card ≤ 2 := by
  cases mode <;> cases access <;> cases width <;> decide

namespace Table

variable {β ε : Type} [Bus β] [Executor ε]

-- A bus cycle comes next, and the dispatch goes on behind it without a call.
def Omits (t : Table) (opcode : UInt8) (width : Width) (m : Machine β ε) (steps : Nat)
    (c : BusCycle) : Prop :=
  ∃ position r found next, t.Meets opcode width m steps position (.cycle c) r ∧
    t.dispatch (steps + 1) opcode width m = (.unfinished found, next) ∧ next.events = r.events

def InPass (t : Table) (opcode : UInt8) (width : Width) (m : Machine β ε) (first steps : Nat) : Prop :=
  first ≤ steps ∧ ∀ later, first < later → later ≤ steps → ∀ r, ¬ t.PassBegins opcode width m later r

namespace Holds

variable {t : Table} {a : Assignment} {width : Width} {offset : Nat} {m : Machine β ε}
  {steps first position i : Nat} {start r : Run β ε} {c : BusCycle} {behind ahead : Program}

theorem marked_of_stands (holds : t.Holds a width offset)
    (stands : t.dispatch steps a.opcode width m = (.unfinished position, r))
    (set_ : r.state.skipNext = true) :
    ∃ behind ahead, a.mode.program a.operation.access width = behind ++ ahead ∧
      position = offset + behind.length ∧ Program.marked false behind = true ∧
      t.store[position]? = (ahead ++ [MicroOp.endOfProgram]).head? := by
  obtain ⟨start, behind, ahead, starts, split, leads, found, read⟩ := holds.parts_of_stands stands
  have fresh := starts.fresh m.state.beginInstruction_fresh
  exact ⟨behind, ahead, split, found, leads.marked_of_fresh fresh set_, read⟩

theorem meets_elidable (holds : t.Holds a width offset)
    (stands : t.dispatch steps a.opcode width m = (.unfinished position, r))
    (set_ : r.state.skipNext = true) :
    ∃ c, t.Meets a.opcode width m steps position (.cycle c) r ∧ c.isElidable = true := by
  obtain ⟨behind, ahead, split, -, marked, read⟩ := holds.marked_of_stands stands set_
  obtain ⟨-, -, c, rest, -, rfl, elidable⟩ :=
    (Program.elidesBetween_iff _ _).mp (AddressingMode.elides_of_split split marked)
  exact ⟨c, ⟨stands, read⟩, elidable⟩

theorem cycle_of_marked (holds : t.Holds a width offset) {u : MicroOp}
    (meets : t.Meets a.opcode width m steps position u r) (set_ : r.state.skipNext = true) :
    ∃ c, u = .cycle c ∧ c.isElidable = true := by
  obtain ⟨c, same, elidable⟩ := holds.meets_elidable meets.stands set_
  have read := same.read
  rw [meets.read] at read
  exact ⟨c, Option.some.inj read, elidable⟩

theorem elidable_of_meets (holds : t.Holds a width offset)
    (meets : t.Meets a.opcode width m steps position (.cycle c) r)
    (set_ : r.state.skipNext = true) : c.isElidable = true := by
  obtain ⟨other, same, elidable⟩ := holds.cycle_of_marked meets set_
  cases same
  exact elidable

theorem skipNext_of_passBegins (holds : t.Holds a width offset)
    (begins : t.PassBegins a.opcode width m first start) : start.state.skipNext = false := by
  rw [holds.fresh_of_passBegins begins]

theorem constructed_of_marked (holds : t.Holds a width offset)
    (stands : t.dispatch steps a.opcode width m = (.unfinished position, r))
    (set_ : r.state.skipNext = true) :
    ∃ earlier found c before, steps = earlier + 1 ∧ position = found + 1 ∧
      t.Meets a.opcode width m earlier found (.construct c) before ∧
      before.state.skipNext = false := by
  obtain ⟨behind, ahead, split, place, marked, -⟩ := holds.marked_of_stands stands set_
  obtain ⟨front, c, k, rest, rfl, rfl, -⟩ :=
    (Program.elidesBetween_iff _ _).mp (AddressingMode.elides_of_split split marked)
  cases steps with
  | zero =>
    -- No pass begins with the marker set, neither the first nor, below, a later one.
    have begins := holds.passBegins_iff.mpr (holds.dispatch_eq 0 m)
    have clear := holds.skipNext_of_passBegins begins
    rw [holds.dispatch_eq] at stands
    cases stands
    rw [set_] at clear
    cases clear
  | succ earlier =>
    obtain ⟨found, u, before, meets, ⟨stepped, rfl⟩ | ⟨stepped, rfl⟩⟩ := holds.meets_of_stands stands
    · have at_ : found = offset + front.length := by
        rw [List.length_append, List.length_singleton] at place
        omega
      have read := holds.placed.read (split.trans (List.append_assoc ..))
      rw [← at_, meets.read] at read
      cases read
      refine ⟨earlier, found, c, before, rfl, rfl, meets, ?_⟩
      cases before_set : before.state.skipNext with
      | false => rfl
      | true =>
        obtain ⟨other, same, -⟩ := holds.cycle_of_marked meets before_set
        cases same
    · have clear := holds.skipNext_of_passBegins (holds.passBegins_iff.mpr stands)
      rw [set_] at clear
      cases clear

theorem marked_of_omits (holds : t.Holds a width offset) (omits : t.Omits a.opcode width m steps c) :
    ∃ position r, t.Meets a.opcode width m steps position (.cycle c) r ∧
      r.state.skipNext = true := by
  obtain ⟨position, r, found, next, meets, onward, quiet⟩ := omits
  refine ⟨position, r, meets, ?_⟩
  cases set_ : r.state.skipNext with
  | true => rfl
  | false =>
    -- A cycle that is performed is counted, and the count is that of the calls.
    have before := t.dispatch_balanced steps a.opcode width m
    have after := t.dispatch_balanced (steps + 1) a.opcode width m
    rw [meets.stands] at before
    rw [onward] at after
    change r.cycles = Event.busCalls r.events at before
    change next.cycles = Event.busCalls next.events at after
    rw [holds.dispatch_of_meets meets, Run.step, set_, if_neg Bool.false_ne_true] at onward
    obtain ⟨flow, rfl⟩ := Prod.mk.inj onward
    have went : (r.cycle c).1 = .next := by
      cases came : (r.cycle c).1 with
      | next => rfl
      | restart =>
        have flows := r.cycle_flow c
        simp [came] at flows
      | finish | fault =>
        rw [came] at flow
        cases flow
    have counted := r.cycle_counted c went
    rw [quiet, ← before, counted] at after
    omega

theorem position_of_inPass (holds : t.Holds a width offset)
    (begins : t.PassBegins a.opcode width m first start)
    (inside : t.InPass a.opcode width m first (first + i))
    (stands : t.dispatch (first + i) a.opcode width m = (.unfinished position, r)) :
    position = offset + i := by
  induction i generalizing position r with
  | zero =>
    have first_stands := holds.dispatch_of_passBegins begins
    rw [Nat.add_zero, first_stands] at stands
    cases stands
    rfl
  | succ i ih =>
    have earlier : t.InPass a.opcode width m first (first + i) :=
      ⟨Nat.le_add_right .., fun later after before => inside.2 later after (by omega)⟩
    obtain ⟨found, u, before, meets, ⟨-, rfl⟩ | ⟨-, rfl⟩⟩ := holds.meets_of_stands stands
    · rw [ih earlier meets.stands, Nat.add_assoc]
    · have again := holds.passBegins_iff.mpr stands
      exact absurd again (inside.2 (first + (i + 1)) (by omega) (Nat.le_refl _) r)

theorem inPass_of_leads (holds : t.Holds a width offset)
    (begins : t.PassBegins a.opcode width m first start)
    (split : a.mode.program a.operation.access width = behind ++ ahead)
    (leads : Leads a.operation width behind start r) :
    t.InPass a.opcode width m first (first + behind.length) := by
  refine ⟨Nat.le_add_right .., ?_⟩
  intro later after before next again
  obtain ⟨i, rfl⟩ := Nat.exists_eq_add_of_le (Nat.le_of_lt after)
  have short : (behind.take i).length = i := by
    rw [List.length_take]
    omega
  rw [← List.take_append_drop i behind] at leads split
  obtain ⟨middle, front, -⟩ := leads.split
  have stands := holds.reach begins (split.trans (List.append_assoc ..)) front
  rw [short, holds.dispatch_of_passBegins again] at stands
  have place := Verdict.unfinished.inj (Prod.mk.inj stands).1
  omega

theorem pass_of_stands (holds : t.Holds a width offset)
    (stands : t.dispatch steps a.opcode width m = (.unfinished position, r)) :
    ∃ first start behind ahead, t.PassBegins a.opcode width m first start ∧
      a.mode.program a.operation.access width = behind ++ ahead ∧
      Leads a.operation width behind start r ∧ steps = first + behind.length ∧
      position = offset + behind.length := by
  induction steps generalizing position r with
  | zero =>
    rw [holds.dispatch_eq] at stands
    cases stands
    exact ⟨0, m.begin, [], _, holds.passBegins_first m, (List.nil_append _).symm, .nil, rfl, rfl⟩
  | succ steps ih =>
    obtain ⟨found, u, before, meets, ⟨stepped, rfl⟩ | ⟨-, rfl⟩⟩ := holds.meets_of_stands stands
    · obtain ⟨first, start, behind, ahead, begins, split, leads, rfl, rfl⟩ := ih meets.stands
      have read := holds.placed.read split
      rw [meets.read] at read
      cases ahead with
      | nil =>
        cases read
        cases stepped
      | cons v ahead =>
        cases read
        refine ⟨first, start, behind ++ [u], ahead, begins, by simp [split],
          leads.append (.single stepped), by simp [Nat.add_assoc], by simp [Nat.add_assoc]⟩
    · exact ⟨steps + 1, r, [], _, holds.passBegins_iff.mpr stands, (List.nil_append _).symm, .nil,
        rfl, rfl⟩

theorem pass_of_meets (holds : t.Holds a width offset) {u : MicroOp}
    (meets : t.Meets a.opcode width m steps position u r) (program : u ≠ .endOfProgram) :
    ∃ first start behind ahead, t.PassBegins a.opcode width m first start ∧
      a.mode.program a.operation.access width = behind ++ u :: ahead ∧
      Leads a.operation width behind start r ∧ steps = first + behind.length ∧
      position = offset + behind.length := by
  obtain ⟨first, start, behind, ahead, begins, split, leads, count, place⟩ :=
    holds.pass_of_stands meets.stands
  have read := holds.placed.read split
  rw [← place, meets.read] at read
  cases ahead with
  | nil =>
    cases read
    exact absurd rfl program
  | cons v ahead =>
    cases read
    exact ⟨first, start, behind, ahead, begins, split, leads, count, place⟩

theorem encard_omits (holds : t.Holds a width offset)
    (begins : t.PassBegins a.opcode width m first start) :
    {steps | t.InPass a.opcode width m first steps ∧
      ∃ c, t.Omits a.opcode width m steps c}.encard ≤ 2 := by
  let p := a.mode.program a.operation.access width
  let marks := (Finset.range (p.length + 1)).filter fun i => Program.marked false (p.take i) = true
  have within : {steps | t.InPass a.opcode width m first steps ∧
      ∃ c, t.Omits a.opcode width m steps c} ⊆ ↑(marks.image (first + ·)) := by
    rintro steps ⟨inside, c, omits⟩
    obtain ⟨i, rfl⟩ := Nat.exists_eq_add_of_le inside.1
    obtain ⟨position, r, meets, set_⟩ := holds.marked_of_omits omits
    have place := holds.position_of_inPass begins inside meets.stands
    obtain ⟨behind, ahead, split, found, marked, -⟩ := holds.marked_of_stands meets.stands set_
    have length : behind.length = i := by omega
    have front : p.take i = behind := by
      rw [← length]
      exact (congrArg (List.take behind.length) split).trans List.take_left
    have short : i ≤ p.length := by
      rw [← length]
      exact (congrArg List.length split).symm ▸ by simp
    simp only [Finset.coe_image, Set.mem_image, Finset.mem_coe]
    refine ⟨i, Finset.mem_filter.mpr ⟨Finset.mem_range.mpr (by omega), ?_⟩, rfl⟩
    rw [front]
    exact marked
  calc _ ≤ ((marks.image (first + ·) : Finset Nat) : Set Nat).encard := Set.encard_le_encard within
    _ = (marks.image (first + ·)).card := Set.encard_coe_eq_coe_finsetCard _
    _ ≤ marks.card := by exact_mod_cast Finset.card_image_le
    _ ≤ 2 := by exact_mod_cast a.mode.card_marked a.operation.access width

theorem skipNext_of_calls (holds : t.Holds a width offset) (calls : t.Calls a.opcode width m steps r) :
    r.state.skipNext = false := by
  obtain ⟨position, meets⟩ := (t.calls_iff a.opcode width m steps r).mp calls
  obtain ⟨start, behind, ahead, starts, split, leads, -⟩ := holds.parts_of_meets meets (by simp)
  exact skipNext_of_called (starts.fresh m.state.beginInstruction_fresh) split leads

theorem skipNext_of_completed (holds : t.Holds a width offset)
    (ended : t.dispatch steps a.opcode width m = (.completed, r)) : r.state.skipNext = false := by
  have stops := holds.stops steps m
  rw [ended] at stops
  obtain ⟨start, starts, leads⟩ := stops.completed_parts
  have fresh := starts.fresh m.state.beginInstruction_fresh
  cases set_ : r.state.skipNext with
  | false => rfl
  | true =>
    have marked := leads.marked_of_fresh fresh set_
    have elides := AddressingMode.elides_of_split (List.append_nil _).symm marked
    obtain ⟨-, -, k, rest, -, more, -⟩ := (Program.elidesBetween_iff _ _).mp elides
    cases more

theorem skipNext_of_faulted (holds : t.Holds a width offset) {cause : Fault}
    (ended : t.dispatch steps a.opcode width m = (.faulted cause, r)) : r.state.skipNext = false := by
  have stops := holds.stops steps m
  rw [ended] at stops
  obtain ⟨start, behind, u, ahead, middle, starts, split, leads, stepped⟩ := stops.faulted_parts
  have fresh := starts.fresh m.state.beginInstruction_fresh
  have clear := leads.clear_of_fault fresh split stepped
  cases u with
  | cycle c =>
    have kept := middle.cycle_skipNext c
    rw [Run.step, clear, if_neg Bool.false_ne_true] at stepped
    rw [stepped] at kept
    exact kept.trans clear
  | construct c =>
    rw [Run.step] at stepped
    cases applied : c.apply middle.state with
    | ok after =>
      rw [applied] at stepped
      cases stepped
    | error cause =>
      rw [applied] at stepped
      cases stepped
      exact clear
  | perform => exact absurd stepped Run.perform_ne_fault
  | copy | endOfProgram => cases stepped

theorem skipNext_of_final (holds : t.Holds a width offset)
    (final : (t.dispatch steps a.opcode width m).1.isFinal) :
    (t.dispatch steps a.opcode width m).2.state.skipNext = false := by
  cases ended : t.dispatch steps a.opcode width m with
  | mk verdict r =>
    cases verdict with
    | completed => exact holds.skipNext_of_completed ended
    | faulted cause => exact holds.skipNext_of_faulted ended
    | illegal error =>
      have stops := holds.stops steps m
      rw [ended] at stops
      cases stops
    | unfinished position =>
      rw [ended] at final
      cases final

end Holds

theorem not_stands_of_free {assignments : List Assignment} {t : Table}
    (built : Table.build assignments = .ok t) {opcode : UInt8}
    (free : ∀ a ∈ assignments, a.opcode ≠ opcode) {width : Width} {m : Machine β ε}
    {steps position : Nat} {r : Run β ε} :
    t.dispatch steps opcode width m ≠ (.unfinished position, r) := by
  intro stands
  rw [dispatch_of_free built free] at stands
  cases stands

structure ElidesIdleCycles (t : Table) (opcode : UInt8) (width : Width) (m : Machine β ε) : Prop where
  -- The marker is set only by the construction right behind, and only where an
  -- elidable cycle is right ahead.
  raised : ∀ steps position r, t.dispatch steps opcode width m = (.unfinished position, r) →
    r.state.skipNext = true →
      (∃ earlier found c before, steps = earlier + 1 ∧ position = found + 1 ∧
        t.Meets opcode width m earlier found (.construct c) before ∧
        before.state.skipNext = false) ∧
      ∃ c, t.Meets opcode width m steps position (.cycle c) r ∧ c.isElidable = true
  -- That cycle spends it and does nothing else; any other cycle is performed.
  spent : ∀ steps position c r, t.Meets opcode width m steps position (.cycle c) r →
    r.state.skipNext = true →
      t.dispatch (steps + 1) opcode width m =
        (.unfinished (position + 1), { r with state.skipNext := false })
  performed : ∀ steps position c r, t.Meets opcode width m steps position (.cycle c) r →
    r.state.skipNext = false → (t.dispatch (steps + 1) opcode width m).2 = (r.cycle c).2
  omitted : ∀ steps c, t.Omits opcode width m steps c → c.isElidable = true
  atMostTwo : ∀ first start, t.PassBegins opcode width m first start →
    {steps | t.InPass opcode width m first steps ∧ ∃ c, t.Omits opcode width m steps c}.encard ≤ 2
  called : ∀ steps r, t.Calls opcode width m steps r → r.state.skipNext = false
  begun : ∀ steps r, t.PassBegins opcode width m steps r → r.state.skipNext = false
  completed : ∀ steps r, t.dispatch steps opcode width m = (.completed, r) → r.state.skipNext = false
  refused : ∀ steps error r, t.dispatch steps opcode width m = (.illegal error, r) →
    r.state = m.state

theorem elides_idle_cycles {assignments : List Assignment} {t : Table}
    (built : Table.build assignments = .ok t) (opcode : UInt8) (width : Width) (m : Machine β ε) :
    t.ElidesIdleCycles opcode width m := by
  by_cases free : ∀ a ∈ assignments, a.opcode ≠ opcode
  · have never := @not_stands_of_free β ε _ _ _ _ built _ free width m
    constructor
    · exact fun steps position r stands => absurd stands never
    · exact fun steps position c r meets => absurd meets.stands never
    · exact fun steps position c r meets => absurd meets.stands never
    · exact fun steps c ⟨_, _, _, _, meets, _⟩ => absurd meets.stands never
    · exact fun first start ⟨_, _, stands⟩ => absurd stands never
    · exact fun steps r ⟨_, stands, _⟩ => absurd stands never
    · exact fun steps r ⟨_, _, stands⟩ => absurd stands never
    · intro steps r ended
      rw [dispatch_of_free built free] at ended
      cases ended
    · intro steps error r ended
      rw [dispatch_of_free built free] at ended
      cases ended
      rfl
  · obtain ⟨a, assigned, rfl⟩ : ∃ a ∈ assignments, a.opcode = opcode := by simpa using free
    obtain ⟨offset, holds⟩ := holds_of_build built assigned width
    constructor
    · intro steps position r stands set_
      exact ⟨holds.constructed_of_marked stands set_, holds.meets_elidable stands set_⟩
    · intro steps position c r meets set_
      rw [holds.dispatch_of_meets meets, Run.step, if_pos set_]
      rfl
    · intro steps position c r meets clear
      rw [holds.dispatch_of_meets meets, Run.step, clear]
      rfl
    · intro steps c omits
      obtain ⟨position, r, meets, set_⟩ := holds.marked_of_omits omits
      exact holds.elidable_of_meets meets set_
    · exact fun first start begins => holds.encard_omits begins
    · exact fun steps r calls => holds.skipNext_of_calls calls
    · exact fun steps r begins => holds.skipNext_of_passBegins begins
    · exact fun steps r ended => holds.skipNext_of_completed ended
    · intro steps error r ended
      have stops := holds.stops steps m
      rw [ended] at stops
      cases stops

-- The direct page is aligned and the index stays on the page, so that of the seven
-- cycles of this load two go. The marker is set beforehand, which costs none.
theorem elides_idle_cycles_both :
    let loads : List Assignment := [⟨0xB1, .directIndirectIndexed, .lda⟩]
    let t := (loads.foldl Builder.accept {}).table
    let m : Machine FlatMemory Bench.Player :=
      { state := { State.ofRegisters {} with skipNext := true }, bus := ⟨fun _ => 0⟩
        executor := {} }
    Table.build loads = .ok t ∧ t.ElidesIdleCycles 0xB1 .sixteen m ∧
      (t.dispatch 20 0xB1 .sixteen m).2.cycles = 5 := by
  intro loads t m
  have built : Table.build loads = .ok t := build_of_ascending (List.pairwise_singleton _ _)
  exact ⟨built, elides_idle_cycles built 0xB1 .sixteen m, by decide +kernel⟩

end Table

end Microcode
