import Mathlib
import Microcode.Proofs.Table.Construction

namespace Microcode

structure IsHighest (opcode : UInt8) (calls : List Assignment) : Prop where
  tried : ∃ a ∈ calls, a.opcode = opcode
  above : ∀ a ∈ calls, a.opcode ≤ opcode

namespace IsHighest

variable {m : UInt8} {calls : List Assignment} {a : Assignment}

theorem lt_iff (highest : IsHighest m calls) : (∀ old ∈ calls, old.opcode < a.opcode) ↔ m < a.opcode := by
  constructor
  · intro above
    obtain ⟨old, member, rfl⟩ := highest.tried
    exact above old member
  · intro lower old member
    exact UInt8.lt_of_le_of_lt (highest.above old member) lower

theorem concat_of_lt (above : ∀ old ∈ calls, old.opcode < a.opcode) :
    IsHighest a.opcode (calls ++ [a]) := by
  refine ⟨⟨a, by simp, rfl⟩, ?_⟩
  intro old member
  rcases List.mem_append.mp member with earlier | new
  · exact UInt8.le_of_lt (above old earlier)
  · cases List.mem_singleton.mp new
    exact UInt8.le_refl _

theorem concat_of_le (highest : IsHighest m calls) (lower : a.opcode ≤ m) :
    IsHighest m (calls ++ [a]) := by
  obtain ⟨old, member, rfl⟩ := highest.tried
  refine ⟨⟨old, by simp [member], rfl⟩, ?_⟩
  intro other present
  rcases List.mem_append.mp present with earlier | new
  · exact highest.above other earlier
  · cases List.mem_singleton.mp new
    exact lower

end IsHighest

namespace Builder

variable {b : Builder} {a : Assignment} {calls done : List Assignment}

theorem tryInstall_cases (b : Builder) (a : Assignment) :
    (∀ previous ∈ b.previous, previous < a.opcode) ∧ b.tryInstall a = (b.accept a, .ok ()) ∨
    b.previous = some a.opcode ∧ b.tryInstall a = (b, .error (.duplicateOpcode a.opcode)) ∨
    ∃ previous, b.previous = some previous ∧ a.opcode < previous ∧
      b.tryInstall a = (b, .error (.outOfOrderOpcode a.opcode previous)) := by
  by_cases higher : ∀ previous ∈ b.previous, previous < a.opcode
  · exact .inl ⟨higher, tryInstall_of_higher higher⟩
  · push Not at higher
    obtain ⟨previous, held, behind⟩ := higher
    by_cases same : a.opcode = previous
    · subst same
      exact .inr (.inl ⟨held, by simp [tryInstall, refusal?, Option.mem_def.mp held]⟩)
    · have lower : a.opcode < previous := UInt8.lt_of_le_of_ne (UInt8.not_lt.mp behind) same
      refine .inr (.inr ⟨previous, held, lower, ?_⟩)
      simp [tryInstall, refusal?, Option.mem_def.mp held, behind, same]

theorem tryInstall_of_ok {next : Builder} (installed : b.install a = .ok next) :
    b.tryInstall a = (next, .ok ()) := by
  unfold install at installed
  split at installed
  · rename_i taken
    cases installed
    exact taken
  · cases installed

theorem tryInstall_of_error {error : ConstructionError} (installed : b.install a = .error error) :
    b.tryInstall a = (b, .error error) := by
  rw [install, tryInstall] at installed
  rw [tryInstall]
  cases refused : b.refusal? a.opcode with
  | none =>
    rw [refused] at installed
    cases installed
  | some other =>
    rw [refused] at installed
    cases installed
    rfl

-- The one opcode that a builder remembers is the highest of all that it was
-- asked to take. A refused one is not above it.
def Remembers (b : Builder) (calls : List Assignment) : Prop :=
  match b.previous with
  | none => calls = []
  | some previous => IsHighest previous calls

theorem isHighest_of_remembers (remembers : b.Remembers calls) {previous : UInt8}
    (held : b.previous = some previous) : IsHighest previous calls := by
  simpa [Remembers, held] using remembers

theorem higher_iff_of_remembers (remembers : b.Remembers calls) :
    (∀ previous ∈ b.previous, previous < a.opcode) ↔ ∀ old ∈ calls, old.opcode < a.opcode := by
  cases held : b.previous with
  | none =>
    have none : calls = [] := by simpa [Remembers, held] using remembers
    simp [none]
  | some previous =>
    rw [(isHighest_of_remembers remembers held).lt_iff]
    simp

theorem remembers_tryInstall (remembers : b.Remembers calls) (a : Assignment) :
    (b.tryInstall a).1.Remembers (calls ++ [a]) := by
  rcases b.tryInstall_cases a with ⟨higher, tried⟩ | ⟨held, tried⟩ | ⟨previous, held, lower, tried⟩
  · rw [tried, Remembers, previous_accept]
    exact .concat_of_lt ((higher_iff_of_remembers remembers).mp higher)
  · rw [tried, Remembers, held]
    exact (isHighest_of_remembers remembers held).concat_of_le (UInt8.le_refl _)
  · rw [tried, Remembers, held]
    exact (isHighest_of_remembers remembers held).concat_of_le (UInt8.le_of_lt lower)

theorem remembers_installAll (remembers : b.Remembers done) (calls : List Assignment) :
    (b.installAll calls).1.Remembers (done ++ calls) := by
  induction calls generalizing b done with
  | nil => simpa [installAll] using remembers
  | cons a rest ih => simpa [installAll] using ih (remembers_tryInstall remembers a)

theorem remembers_empty : ({} : Builder).Remembers [] := rfl

theorem installAll_append (b : Builder) (one two : List Assignment) :
    b.installAll (one ++ two) =
      (((b.installAll one).1.installAll two).1,
        (b.installAll one).2 ++ ((b.installAll one).1.installAll two).2) := by
  induction one generalizing b with
  | nil => rfl
  | cons a rest ih => simp [installAll, ih]

theorem length_installAll (b : Builder) (calls : List Assignment) :
    (b.installAll calls).2.length = calls.length := by
  induction calls generalizing b with
  | nil => rfl
  | cons a rest ih => simp [installAll, ih]

def accepted (b : Builder) (calls : List Assignment) : List Assignment :=
  ((calls.zip (b.installAll calls).2).filter (·.2.isOk)).map (·.1)

theorem foldlM_install_accepted (b : Builder) (calls : List Assignment) :
    (b.accepted calls).foldlM install b = .ok (b.installAll calls).1 := by
  induction calls generalizing b with
  | nil => rfl
  | cons a rest ih =>
    cases installed : b.install a with
    | ok next =>
      have kept : b.accepted (a :: rest) = a :: next.accepted rest := by
        simp [accepted, installAll, tryInstall_of_ok installed, Except.isOk, Except.toBool]
      rw [kept, List.foldlM_cons, installed, installAll, tryInstall_of_ok installed]
      exact ih next
    | error error =>
      have dropped : b.accepted (a :: rest) = b.accepted rest := by
        simp [accepted, installAll, tryInstall_of_error installed, Except.isOk, Except.toBool]
      rw [dropped, installAll, tryInstall_of_error installed]
      exact ih b

theorem foldlM_install_eq_error {error : ConstructionError} :
    calls.foldlM install b = .error error ↔
      ∃ i : Nat, (b.installAll calls).2[i]? = some (.error error) ∧
        ∀ j < i, (b.installAll calls).2[j]? = some (.ok ()) := by
  induction calls generalizing b with
  | nil => simp [installAll, pure, Except.pure]
  | cons a rest ih =>
    rw [List.foldlM_cons, installAll]
    cases installed : b.install a with
    | ok next =>
      rw [tryInstall_of_ok installed]
      constructor
      · intro failed
        obtain ⟨i, found, before⟩ := ih.mp failed
        refine ⟨i + 1, found, fun j earlier => ?_⟩
        cases j with
        | zero => rfl
        | succ j => exact before j (Nat.lt_of_succ_lt_succ earlier)
      · rintro ⟨i, found, before⟩
        cases i with
        | zero => cases found
        | succ i => exact ih.mpr ⟨i, found, fun j earlier => before (j + 1) (Nat.succ_lt_succ earlier)⟩
    | error refused =>
      rw [tryInstall_of_error installed]
      constructor
      · intro failed
        cases failed
        exact ⟨0, rfl, by simp⟩
      · rintro ⟨i, found, before⟩
        cases i with
        | zero =>
          cases found
          rfl
        | succ i => cases before 0 (Nat.succ_pos i)

structure Answers (earlier : List Assignment) (a : Assignment) (before after : Builder)
    (result : Except ConstructionError Unit) : Prop where
  accepted_iff : result = .ok () ↔ ∀ old ∈ earlier, old.opcode < a.opcode
  entered : result = .ok () → after = before.accept a
  refused : ∀ error, result = .error error → after = before ∧
    ∃ m, IsHighest m earlier ∧
      (a.opcode = m ∧ error = .duplicateOpcode a.opcode ∨
        a.opcode < m ∧ error = .outOfOrderOpcode a.opcode m)

theorem answers_of_remembers (remembers : b.Remembers calls) (a : Assignment) :
    Answers calls a b (b.tryInstall a).1 (b.tryInstall a).2 := by
  rcases b.tryInstall_cases a with ⟨higher, tried⟩ | ⟨held, tried⟩ | ⟨previous, held, lower, tried⟩
  · have above := (higher_iff_of_remembers remembers).mp higher
    rw [tried]
    exact ⟨by simpa using above, fun _ => rfl, nofun⟩
  · have highest := isHighest_of_remembers remembers held
    rw [tried]
    refine ⟨?_, nofun, ?_⟩
    · simp [highest.lt_iff]
    · rintro error ⟨⟩
      exact ⟨rfl, a.opcode, highest, .inl ⟨rfl, rfl⟩⟩
  · have highest := isHighest_of_remembers remembers held
    rw [tried]
    refine ⟨?_, nofun, ?_⟩
    · simpa [highest.lt_iff] using UInt8.le_of_lt lower
    · rintro error ⟨⟩
      exact ⟨rfl, previous, highest, .inr ⟨lower, rfl⟩⟩

end Builder

theorem length_le_of_ascending {assignments : List Assignment}
    (ascending : assignments.Pairwise (·.opcode < ·.opcode)) : assignments.length ≤ 256 := by
  have apart : (assignments.map (·.opcode.toFin)).Nodup := by
    refine List.pairwise_map.mpr (ascending.imp fun {one two} lower same => ?_)
    exact UInt8.ne_of_lt lower (UInt8.toFin_inj.mp same)
  simpa using apart.length_le_card

namespace Builder

-- A builder that is called on and on, whatever it answers. Each call is answered
-- by the opcodes of all calls before it, and what remains in the end is what
-- the accepted assignments alone would have made.
theorem installAll_in_order (calls : List Assignment) :
    let ends := ({} : Builder).installAll calls
    ends.2.length = calls.length ∧
    (∀ earlier a later, calls = earlier ++ a :: later →
      ∃ result, ends.2[earlier.length]? = some result ∧
        Answers earlier a (({} : Builder).installAll earlier).1
          (({} : Builder).installAll (earlier ++ [a])).1 result) ∧
    Table.build (({} : Builder).accepted calls) = .ok ends.1.table ∧
    ((∃ t, Table.build calls = .ok t) ↔ calls.Pairwise (·.opcode < ·.opcode)) ∧
    ((∃ t, Table.build calls = .ok t) → calls.length ≤ 256) ∧
    ∀ error, Table.build calls = .error error ↔
      ∃ i : Nat, ends.2[i]? = some (.error error) ∧ ∀ j < i, ends.2[j]? = some (.ok ()) := by
  intro ends
  have builds : (∃ t, Table.build calls = .ok t) ↔ calls.Pairwise (·.opcode < ·.opcode) := by
    simp [Table.build_eq_ok_iff]
  refine ⟨length_installAll _ _, ?_, ?_, builds, ?_, ?_⟩
  · intro earlier a later split
    have remembers := remembers_installAll remembers_empty earlier
    have tried : (({} : Builder).installAll (earlier ++ [a])).1 =
        ((({} : Builder).installAll earlier).1.tryInstall a).1 := by
      rw [installAll_append]
      rfl
    refine ⟨((({} : Builder).installAll earlier).1.tryInstall a).2, ?_, ?_⟩
    · have length := length_installAll {} earlier
      simp only [ends, split, installAll_append]
      rw [← length, List.getElem?_append_right (Nat.le_refl _), Nat.sub_self]
      rfl
    · rw [tried]
      exact answers_of_remembers remembers a
  · rw [Table.build, foldlM_install_accepted]
    rfl
  · exact fun built => length_le_of_ascending (builds.mp built)
  · intro error
    rw [← foldlM_install_eq_error, Table.build]
    cases calls.foldlM install {} <;> simp [Except.map]

-- The refused opcode 3 does not lower the bar for the second 5.
theorem installAll_in_order_mixed :
    let calls : List Assignment :=
      [⟨5, .direct, .ora⟩, ⟨3, .stackRelative, .ora⟩, ⟨5, .direct, .lda⟩, ⟨9, .direct, .lda⟩]
    let ends := ({} : Builder).installAll calls
    calls = [⟨5, .direct, .ora⟩, ⟨3, .stackRelative, .ora⟩] ++ ⟨5, .direct, .lda⟩ ::
      [⟨9, .direct, .lda⟩] ∧
    ends.2 = [.ok (), .error (.outOfOrderOpcode 3 5), .error (.duplicateOpcode 5), .ok ()] ∧
    Answers [⟨5, .direct, .ora⟩, ⟨3, .stackRelative, .ora⟩] ⟨5, .direct, .lda⟩
      (({} : Builder).installAll [⟨5, .direct, .ora⟩, ⟨3, .stackRelative, .ora⟩]).1
      (({} : Builder).installAll
        ([⟨5, .direct, .ora⟩, ⟨3, .stackRelative, .ora⟩] ++ [⟨5, .direct, .lda⟩])).1
      (.error (.duplicateOpcode 5)) ∧
    Table.build [⟨5, .direct, .ora⟩, ⟨9, .direct, .lda⟩] = .ok ends.1.table := by
  intro calls ends
  obtain ⟨-, answered, built, -⟩ := installAll_in_order calls
  obtain ⟨result, found, answers⟩ :=
    answered [⟨5, .direct, .ora⟩, ⟨3, .stackRelative, .ora⟩] ⟨5, .direct, .lda⟩ _ rfl
  cases found
  exact ⟨rfl, rfl, answers, built⟩

end Builder

end Microcode
