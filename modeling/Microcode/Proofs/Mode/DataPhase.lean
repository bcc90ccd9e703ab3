import Microcode.Proofs.Mode.RegisterFrame
import Microcode.Proofs.Mode.Result

namespace Microcode

structure Place where
  stores : Bool
  space : AddressSpace
  address : UInt32
  deriving DecidableEq

namespace Event

def place? : Event → Option Place
  | .fetch space address _ => some ⟨false, space, address⟩
  | .store space address _ => some ⟨true, space, address⟩
  | .perform _ _ _ => none

def places (events : Array Event) : List Place :=
  events.toList.filterMap place?

theorem places_push (events : Array Event) (e : Event) :
    places (events.push e) = places events ++ e.place?.toList := by
  cases e <;> simp [places, place?, List.filterMap_append]

end Event

def Transfer.Makes (place : Place) (space : AddressSpace) : Transfer → Prop
  | .fetch address _ => place = ⟨false, space, address⟩
  | .store address _ _ => place = ⟨true, space, address⟩
  | .refused _ _ => True

theorem BusCycle.push_makes (d : Datapath) :
    (BusCycle.push.transfer d).Makes ⟨true, .stack, d.registers.s.toUInt32⟩ .stack := by
  simp only [transfer, Datapath.storeHighest]
  split
  · rfl
  · trivial

namespace MicroOp

def knowsWidth : MicroOp → Bool
  | .perform | .copy .accumulatorToData | .copy .dataToAccumulator => true
  | _ => false

def isLate : MicroOp → Bool
  | .perform | .copy _ | .cycle .push => true
  | _ => false

end MicroOp

section

variable {β ε : Type} [Bus β]

theorem Run.places_of_cycle {c : BusCycle} {r next : Run β ε} {place : Place}
    (makes : (c.transfer r.state.toDatapath).Makes place c.space)
    (went : r.cycle c = (.next, next)) :
    Event.places next.events = Event.places r.events ++ [place] := by
  unfold cycle at went
  split at went
  · rename_i asks
    rw [asks] at makes
    cases makes
    dsimp only at went
    split at went
    · cases went
      exact Event.places_push ..
    · cases went
  · rename_i asks
    rw [asks] at makes
    cases makes
    cases went
    exact Event.places_push ..
  · cases went

variable [Executor ε] {operation : Operation} {width : Width} {q : Program} {u : MicroOp}
  {r next : Run β ε}

theorem Run.step_width (blind : u.knowsWidth = false) (r : Run β ε) (one two : Width) :
    r.step operation one u = r.step operation two u := by
  cases u with
  | copy c => cases c <;> first | rfl | cases blind
  | perform => cases blind
  | _ => rfl

theorem Leads.at_width (leads : Leads operation width q r next)
    (blind : ∀ u ∈ q, u.knowsWidth = false) (other : Width) : Leads operation other q r next := by
  induction leads with
  | nil => exact .nil
  | @cons u rest r middle next stepped _ ih =>
    have later := ih fun v member => blind v (List.mem_cons_of_mem u member)
    rw [Run.step_width (blind u (List.mem_cons_self ..)) r width other] at stepped
    exact .cons stepped later

theorem Leads.places (leads : Leads operation width q r next) :
    ∃ more, Event.places next.events = Event.places r.events ++ more := by
  obtain ⟨later, grown⟩ := leads.events
  exact ⟨later.filterMap Event.place?, by rw [Event.places, grown, List.filterMap_append]; rfl⟩

end

namespace AddressingMode

-- What a program does before its data phase: it comes to the operand's address, or,
-- in a mode without the shared tails, to the first micro-op that knows the width.
def addressPhase (mode : AddressingMode) (access : Access) : Program :=
  if mode.isTransfer || mode.isModify then mode.head access
  else (mode.program access .eight).takeWhile (!·.knowsWidth)

def dataPhase (mode : AddressingMode) (access : Access) (width : Width) : Program :=
  (mode.program access width).drop (mode.addressPhase access).length

def widening (mode : AddressingMode) : Nat :=
  if mode.isTransfer then 1 else if mode.isModify then 2 else 0

theorem program_eq_phases (mode : AddressingMode) (access : Access) (width : Width) :
    mode.program access width = mode.addressPhase access ++ mode.dataPhase access width := by
  cases mode <;> cases access <;> cases width <;> rfl

theorem addressPhase_blind (mode : AddressingMode) (access : Access) :
    ∀ u ∈ mode.addressPhase access, u.knowsWidth = false := by
  cases mode <;> cases access <;> decide

theorem dataPhase_quiet (mode : AddressingMode) (access : Access) (width : Width) :
    ∀ u ∈ mode.dataPhase access width, u.isConstruction = false := by
  cases mode <;> cases access <;> cases width <;> decide

theorem keeps_phases_apart (mode : AddressingMode) (access : Access) (width : Width) :
    Program.elidesBetween (mode.addressPhase access) (mode.dataPhase access width) = false := by
  cases mode <;> cases access <;> cases width <;> decide

theorem busCycles_dataPhase (mode : AddressingMode) (access : Access) :
    (mode.dataPhase access .sixteen).busCycles =
      (mode.dataPhase access .eight).busCycles + mode.widening := by
  cases mode <;> cases access <;> rfl

theorem dataPhase_of_isTransfer {mode : AddressingMode} (transfers : mode.isTransfer)
    (access : Access) (width : Width) : mode.dataPhase access width = Program.transfer access width := by
  rw [dataPhase, addressPhase, transfers, Bool.true_or, if_pos rfl, program_of_isTransfer transfers,
    List.drop_left]

theorem dataPhase_of_isModify {mode : AddressingMode} (modifies : mode.isModify) (access : Access)
    (width : Width) : mode.dataPhase access width = Program.modify width := by
  cases mode <;> first | (cases access <;> rfl) | cases modifies

theorem dataPhase_of_write {mode : AddressingMode} (transfers : mode.isTransfer) (width : Width) :
    ∃ c rest, mode.dataPhase .write width = .perform :: .cycle c :: rest ∧
      ∀ d, (c.transfer d).Makes ⟨true, .data, d.dataAddress⟩ c.space := by
  rw [dataPhase_of_isTransfer transfers]
  cases width <;> exact ⟨_, _, rfl, fun _ => rfl⟩

theorem dataPhase_of_read {mode : AddressingMode} {access : Access}
    (reads : mode.isTransfer ∧ access = .read ∨ mode.isModify) (width : Width) :
    ∃ c rest, mode.dataPhase access width = .cycle c :: rest ∧
      ∀ d, (c.transfer d).Makes ⟨false, .data, d.dataAddress⟩ c.space := by
  rcases reads with ⟨transfers, rfl⟩ | modifies
  · rw [dataPhase_of_isTransfer transfers]
    cases width <;> exact ⟨_, _, rfl, fun _ => rfl⟩
  · rw [dataPhase_of_isModify modifies]
    cases width <;> exact ⟨_, _, rfl, fun _ => rfl⟩

theorem dataPhase_of_other {mode : AddressingMode} (other : ¬ (mode.isTransfer ∨ mode.isModify))
    (access : Access) (width : Width) :
    (∀ u ∈ mode.dataPhase access width, u.isLate) ∧
      (mode.dataPhase access width).busCycles = mode.pushesLate := by
  cases mode <;>
    first
      | exact absurd (.inl rfl) other
      | exact absurd (.inr rfl) other
      | (cases access <;> cases width <;> decide)

end AddressingMode

-- An executor that does not interfere with the account: it is done, and leaves but
-- what fits into the data buffer.
structure Discreet (ε : Type) [Executor ε] (operation : Operation) : Prop where
  done : ∀ (e : ε) (width : Width) (s : State),
    (Executor.perform e operation width s).completion = .done
  registers : ∀ (e : ε) (width : Width) (s : State),
    (Executor.perform e operation width s).datapath.registers = s.registers
  address : ∀ width, KeepsAddress ε operation width
  few : ∀ (e : ε) (width : Width) (s : State),
    (Executor.perform e operation width s).datapath.dataBuffer.size.toNat ≤ 4

def Place.pushes (top : UInt16) (count : Nat) : List Place :=
  (List.range count).map fun i => ⟨true, .stack, (top - .ofNat i).toUInt32⟩

theorem Place.pushes_succ (top : UInt16) (count : Nat) :
    pushes top (count + 1) = ⟨true, .stack, top.toUInt32⟩ :: pushes (top - 1) count := by
  have below : ∀ i, top - .ofNat (i + 1) = top - 1 - .ofNat i := by
    intro i
    rw [UInt16.ofNat_add]
    grind
  have first : top - .ofNat 0 = top := UInt16.sub_zero _
  simp only [pushes, List.range_succ_eq_map, List.map_cons, List.map_map, Function.comp_def,
    Nat.succ_eq_add_one, below, first]

theorem Run.places_afterCall {β ε : Type} [Executor ε] (operation : Operation) (width : Width)
    (r : Run β ε) : Event.places (r.afterCall operation width).events = Event.places r.events := by
  rw [afterCall, Event.places_push]
  exact List.append_nil _

section

variable {β ε : Type} [Bus β] [Executor ε] {operation : Operation} {width : Width}
  {mode : AddressingMode} {access : Access} {q : Program} {c : BusCycle} {r next : Run β ε}

theorem Leads.places_of_cycle {place : Place} (clear : r.state.skipNext = false)
    (leads : Leads operation width (.cycle c :: q) r next)
    (makes : (c.transfer r.state.toDatapath).Makes place c.space) :
    ∃ more, Event.places next.events = Event.places r.events ++ place :: more := by
  cases leads with
  | cons stepped later =>
    rw [Run.step, clear, if_neg Bool.false_ne_true] at stepped
    obtain ⟨more, grown⟩ := later.places
    refine ⟨more, ?_⟩
    rw [grown, Run.places_of_cycle makes stepped, List.append_assoc, List.singleton_append]

theorem Leads.places_of_dataPhase (discreet : Discreet ε operation)
    (located : mode.isTransfer ∨ mode.isModify) (clear : r.state.skipNext = false)
    (leads : Leads operation width (mode.dataPhase access width) r next) :
    ∃ more, Event.places next.events = Event.places r.events ++
      ⟨mode.isTransfer && access == .write, .data, r.state.dataAddress⟩ :: more := by
  by_cases writes : mode.isTransfer ∧ access = .write
  · obtain ⟨transfers, rfl⟩ := writes
    obtain ⟨c, rest, same, makes⟩ := AddressingMode.dataPhase_of_write transfers width
    rw [same] at leads
    cases leads with
    | cons performed later =>
      obtain ⟨-, rfl⟩ := Run.of_performed performed
      have still : (r.afterCall operation width).state.skipNext = false := clear
      have stays : (r.afterCall operation width).state.dataAddress = r.state.dataAddress :=
        (discreet.address width r.executor r.state).1
      obtain ⟨more, made⟩ := later.places_of_cycle still (makes _)
      rw [Run.places_afterCall, stays] at made
      rw [transfers]
      exact ⟨more, made⟩
  · have reads : mode.isTransfer ∧ access = .read ∨ mode.isModify := by
      cases access with
      | read => exact located.imp_left fun transfers => ⟨transfers, rfl⟩
      | write => exact .inr (located.resolve_left fun transfers => writes ⟨transfers, rfl⟩)
    obtain ⟨c, rest, same, makes⟩ := AddressingMode.dataPhase_of_read reads width
    rw [same] at leads
    have fetches : (mode.isTransfer && access == .write) = false := by
      simpa using writes
    rw [fetches]
    exact leads.places_of_cycle clear (makes _)

theorem Leads.places_of_late (discreet : Discreet ε operation) (late : ∀ u ∈ q, u.isLate)
    (clear : r.state.skipNext = false) (leads : Leads operation width q r next) :
    Event.places next.events =
      Event.places r.events ++ Place.pushes r.state.registers.s q.busCycles := by
  induction leads with
  | nil => exact (List.append_nil _).symm
  | @cons u rest r middle next stepped _ ih =>
    have later := ih fun v member => late v (List.mem_cons_of_mem u member)
    have own := late u (List.mem_cons_self ..)
    cases u with
    | cycle c =>
      cases c with
      | push =>
        have never : r.state.skipNext = true → ∃ c, MicroOp.cycle .push = .cycle c ∧
            c.isElidable = true := by
          simp [clear]
        have frame := Run.step_registers (by simp) never stepped
        have kept := r.cycle_skipNext .push
        rw [Run.step, clear, if_neg Bool.false_ne_true] at stepped
        rw [stepped] at kept
        have one : Program.busCycles (.cycle .push :: rest) = Program.busCycles rest + 1 :=
          List.countP_cons_of_pos rfl
        rw [later (kept.trans clear), Run.places_of_cycle (BusCycle.push_makes _) stepped, frame,
          one, Place.pushes_succ, List.append_assoc]
        rfl
      | _ => cases own
    | copy c =>
      cases stepped
      have stack := congrArg Registers.s (c.apply_frame width r.state.toDatapath).1
      rw [later clear]
      exact congrArg (_ ++ Place.pushes · _) stack
    | perform =>
      obtain ⟨-, rfl⟩ := Run.of_performed stepped
      have stays : (r.afterCall operation width).state.registers = r.state.registers :=
        discreet.registers r.executor width r.state
      rw [later clear, Run.places_afterCall, stays]
      rfl
    | construct | endOfProgram => cases own

namespace Table

variable {t : Table} {a : Assignment} {offset : Nat} {m : Machine β ε} {shared : Run β ε}

namespace Holds

theorem completes_behind_address (holds : t.Holds a width offset)
    (discreet : Discreet ε a.operation)
    (leads : Leads a.operation width (a.mode.addressPhase a.operation.access) m.begin shared)
    {limit : Nat} (enough : (a.mode.program a.operation.access width).length < limit) :
    ∃ r, t.dispatch limit a.opcode width m = (.completed, r) ∧
      Leads a.operation width (a.mode.dataPhase a.operation.access width) shared r := by
  have begins := holds.passBegins_first m
  obtain ⟨called, front, -, -⟩ := holds.called_of_passBegins begins
  have once : ¬ called.repeats a.operation width := fun repeated => by
    cases (discreet.done called.executor width called.state).symm.trans repeated.1
  have room : ¬ called.Overfills a.operation width :=
    Nat.not_lt.mpr (discreet.few called.executor width called.state)
  rw [← Nat.zero_add (List.length _)] at enough
  obtain ⟨r, ended, later⟩ := holds.completes_of_room begins front once room enough
  have whole := front.append (.cons (Run.step_perform_of_not_repeats once) later)
  rw [← a.mode.program_eq, a.mode.program_eq_phases] at whole
  obtain ⟨middle, again, data⟩ := whole.split
  cases again.functional leads
  exact ⟨r, ended, data⟩

theorem dispatch_of_addressPhase (holds : t.Holds a width offset)
    (leads : Leads a.operation width (a.mode.addressPhase a.operation.access) m.begin shared) :
    (t.dispatch (a.mode.addressPhase a.operation.access).length a.opcode width m).2 = shared := by
  have split := a.mode.program_eq_phases a.operation.access width
  have reached := holds.reach (holds.passBegins_first m) split leads
  rw [Nat.zero_add] at reached
  rw [reached]

end Holds

theorem skipNext_behind_address
    (leads : Leads a.operation width (a.mode.addressPhase a.operation.access) m.begin shared) :
    shared.state.skipNext = false := by
  by_contra set_
  rw [Bool.not_eq_false] at set_
  have fresh := m.state.beginInstruction_fresh
  have split := a.mode.program_eq_phases a.operation.access width
  have elides := AddressingMode.elides_of_split split (leads.marked_of_fresh fresh set_)
  rw [a.mode.keeps_phases_apart] at elides
  cases elides

-- Two dispatches of one assignment, at eight and at sixteen bits, that are in one
-- and the same run up to their data phases.
structure WidensDataPhase (t : Table) (a : Assignment) (m : Machine β ε)
    (shared narrow wide : Run β ε) : Prop where
  addressed : ∀ width,
    (t.dispatch (a.mode.addressPhase a.operation.access).length a.opcode width m).2 = shared
  uncalled : Event.performs shared.events = 0
  kept : shared.events.toList <+: narrow.events.toList ∧ shared.events.toList <+: wide.events.toList
  transferred : a.mode.isTransfer ∨ a.mode.isModify → ∃ first rest more,
    first = ⟨a.mode.isTransfer && a.operation.access == .write, .data, shared.state.dataAddress⟩ ∧
      Event.places narrow.events = Event.places shared.events ++ first :: rest ∧
      Event.places wide.events = Event.places shared.events ++ first :: more
  otherwise : ¬ (a.mode.isTransfer ∨ a.mode.isModify) →
    Event.places narrow.events = Event.places wide.events ∧
      Event.places narrow.events =
        Event.places shared.events ++ Place.pushes shared.state.registers.s a.mode.pushesLate
  cycles : wide.cycles = narrow.cycles + a.mode.widening

theorem widens_data_phase {assignments : List Assignment} (built : Table.build assignments = .ok t)
    (assigned : a ∈ assignments) (discreet : Discreet ε a.operation) (m : Machine β ε) {limit : Nat}
    (enough : ∀ width, (a.mode.program a.operation.access width).length < limit) :
    ∃ shared narrow wide, t.dispatch limit a.opcode .eight m = (.completed, narrow) ∧
      t.dispatch limit a.opcode .sixteen m = (.completed, wide) ∧
      t.WidensDataPhase a m shared narrow wide := by
  obtain ⟨low, holds_narrow⟩ := holds_of_build built assigned .eight
  obtain ⟨high, holds_wide⟩ := holds_of_build built assigned .sixteen
  have blind := a.mode.addressPhase_blind a.operation.access
  have own : .perform ∉ a.mode.addressPhase a.operation.access := fun member => by
    cases blind _ member
  obtain ⟨f, after, fits, -⟩ :=
    AddressingMode.fits_of_split (a.mode.program_eq_phases a.operation.access .eight)
  obtain ⟨shared, leads, -⟩ : ∃ shared, Leads a.operation .eight _ m.begin shared ∧ _ :=
    leads_of_fits own fits m.state.beginInstruction_fresh.fills
  -- Nothing so far knew the width, so both dispatches come to this one run.
  have wider := leads.at_width blind .sixteen
  obtain ⟨narrow, ended_narrow, data⟩ :=
    holds_narrow.completes_behind_address discreet leads (enough .eight)
  obtain ⟨wide, ended_wide, more⟩ :=
    holds_wide.completes_behind_address discreet wider (enough .sixteen)
  have clear := skipNext_behind_address leads
  refine ⟨shared, narrow, wide, ended_narrow, ended_wide, ?_, ?_, ?_, ?_, ?_, ?_⟩
  · intro width
    cases width with
    | eight => exact holds_narrow.dispatch_of_addressPhase leads
    | sixteen => exact holds_wide.dispatch_of_addressPhase wider
  · exact leads.performs own
  · obtain ⟨one, grown⟩ := data.events
    obtain ⟨two, grown_more⟩ := more.events
    exact ⟨⟨one, grown.symm⟩, ⟨two, grown_more.symm⟩⟩
  · intro located
    obtain ⟨rest, one⟩ := data.places_of_dataPhase discreet located clear
    obtain ⟨others, two⟩ := more.places_of_dataPhase discreet located clear
    exact ⟨_, rest, others, rfl, one, two⟩
  · intro other
    obtain ⟨late, count⟩ := AddressingMode.dataPhase_of_other other a.operation.access .eight
    obtain ⟨late_wide, count_wide⟩ :=
      AddressingMode.dataPhase_of_other other a.operation.access .sixteen
    have one := data.places_of_late discreet late clear
    have two := more.places_of_late discreet late_wide clear
    rw [count] at one
    rw [count_wide] at two
    exact ⟨one.trans two.symm, one⟩
  · rw [data.cycles_eq (a.mode.dataPhase_quiet a.operation.access .eight) clear,
      more.cycles_eq (a.mode.dataPhase_quiet a.operation.access .sixteen) clear,
      a.mode.busCycles_dataPhase, Nat.add_assoc]

end Table

end

theorem Bench.Reference.discreet_asl : Discreet Bench.Reference .asl where
  done _ _ _ := rfl
  registers _ _ _ := rfl
  address width := Bench.Reference.keepsAddress .asl width
  few _ width _ := by
    cases width with
    | eight => exact show (1 : UInt8).toNat ≤ 4 by decide
    | sixteen => exact show (2 : UInt8).toNat ≤ 4 by decide

theorem Table.widens_data_phase_aligned :
    let a : Assignment := ⟨0x16, .directXModify, .asl⟩
    let t := ([a].foldl Builder.accept {}).table
    let m : Machine Bench.Memory Bench.Reference :=
      { state := .ofRegisters { direct := 0xFF00, x := 0xFF }, bus := {}, executor := {} }
    Table.build [a] = .ok t ∧ Discreet Bench.Reference a.operation ∧
      (∀ width, (a.mode.program a.operation.access width).length < 20) ∧
      (∃ shared narrow wide, t.dispatch 20 a.opcode .eight m = (.completed, narrow) ∧
        t.dispatch 20 a.opcode .sixteen m = (.completed, wide) ∧
        t.WidensDataPhase a m shared narrow wide) ∧
      (t.dispatch 20 a.opcode .eight m).2.cycles = 5 ∧
      (t.dispatch 20 a.opcode .sixteen m).2.cycles = 7 := by
  intro a t m
  have built : Table.build [a] = .ok t := build_of_ascending (List.pairwise_singleton _ _)
  have enough : ∀ width, (a.mode.program a.operation.access width).length < 20 := by
    intro width
    cases width <;> decide
  exact ⟨built, Bench.Reference.discreet_asl, enough,
    widens_data_phase built (List.mem_singleton_self a) Bench.Reference.discreet_asl m enough,
    by decide +kernel, by decide +kernel⟩

end Microcode
