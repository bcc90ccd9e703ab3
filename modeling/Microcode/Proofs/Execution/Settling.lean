import Microcode.Proofs.Execution.Cycles

namespace Microcode

def MicroOp.settles : MicroOp → Bool
  | .cycle .storeData | .cycle .storeDataUp | .cycle .storeDataDown | .cycle .push
  | .copy .dataToAccumulator => true
  | _ => false

-- Steps that take the highest byte, which more than four bytes hide.
def MicroOp.takesHighest : MicroOp → Bool
  | .cycle .storeDataDown | .cycle .push => true
  | _ => false

namespace Buffer

theorem toNat_size_takeLowest (b : Buffer) : b.takeLowest.2.size.toNat ≤ b.size.toNat := by
  rw [takeLowest, toNat_fewer]
  omega

theorem takeHighest_of_le {b : Buffer} (few : b.size.toNat ≤ 4) :
    ∃ byte rest, b.takeHighest = (.ok byte, rest) ∧ rest.size.toNat ≤ b.size.toNat := by
  have fewer := b.toNat_fewer
  have reach : b.fewer < 4 := by
    rw [UInt8.lt_iff_toNat_lt, fewer]
    change _ < 4
    omega
  refine ⟨_, _, by rw [takeHighest, if_pos reach], ?_⟩
  rw [size_ofValue, fewer]
  omega

theorem takeHighest_of_lt {b : Buffer} (many : 4 < b.size.toNat) :
    ∃ rest, b.takeHighest = (.error .byteOutOfReach, rest) :=
  ⟨_, Prod.ext (b.takeHighest_fault_iff.mpr many) rfl⟩

end Buffer

theorem BusCycle.transfer_settles {c : BusCycle} (settles : (MicroOp.cycle c).settles) {d : Datapath}
    (room : (MicroOp.cycle c).takesHighest = true → d.dataBuffer.size.toNat ≤ 4) :
    ∃ address byte after, c.transfer d = .store address byte after ∧
      after.dataBuffer.size.toNat ≤ d.dataBuffer.size.toNat := by
  cases c with
  | storeData | storeDataUp => exact ⟨_, _, _, rfl, d.dataBuffer.toNat_size_takeLowest⟩
  | storeDataDown | push =>
    obtain ⟨byte, rest, taken, still⟩ := Buffer.takeHighest_of_le (room rfl)
    simp only [transfer, Datapath.storeHighest, taken]
    exact ⟨_, byte, _, rfl, still⟩
  | _ => cases settles

variable {β ε : Type} [Bus β] [Executor ε] (operation : Operation) (width : Width)

theorem Run.step_settles {u : MicroOp} (settles : u.settles) {r : Run β ε}
    (clear : r.state.skipNext = false)
    (room : u.takesHighest = true → r.state.dataBuffer.size.toNat ≤ 4) :
    ∃ next, r.step operation width u = (.next, next) ∧ next.state.skipNext = false ∧
      next.state.dataBuffer.size.toNat ≤ r.state.dataBuffer.size.toNat := by
  cases u with
  | cycle c =>
    obtain ⟨address, byte, after, asks, still⟩ := BusCycle.transfer_settles settles room
    have kept := r.cycle_skipNext c
    rw [step, clear, if_neg Bool.false_ne_true]
    rw [cycle, asks] at kept ⊢
    exact ⟨_, rfl, kept.trans clear, still⟩
  | copy c =>
    cases c with
    | dataToAccumulator => exact ⟨_, rfl, clear, Nat.le_refl _⟩
    | _ => cases settles
  | _ => cases settles

theorem Run.step_overfilled {u : MicroOp} (takes : u.takesHighest = true) {r : Run β ε}
    (clear : r.state.skipNext = false) (many : 4 < r.state.dataBuffer.size.toNat) :
    ∃ after, r.step operation width u = (.fault .byteOutOfReach, r.withDatapath after) := by
  cases u with
  | cycle c =>
    cases c with
    | storeDataDown | push =>
      obtain ⟨rest, taken⟩ := Buffer.takeHighest_of_lt many
      rw [step, clear, if_neg Bool.false_ne_true, cycle]
      simp only [BusCycle.transfer, Datapath.storeHighest, taken]
      exact ⟨_, rfl⟩
    | _ => cases takes
  | _ => cases takes

theorem leads_of_room {q : Program} (settles : ∀ u ∈ q, u.settles) {r : Run β ε}
    (clear : r.state.skipNext = false)
    (room : ∀ u ∈ q, u.takesHighest = true → r.state.dataBuffer.size.toNat ≤ 4) :
    ∃ next, Leads operation width q r next := by
  induction q generalizing r with
  | nil => exact ⟨r, .nil⟩
  | cons u rest ih =>
    obtain ⟨middle, stepped, still, fewer⟩ :=
      Run.step_settles operation width (settles u (by simp)) clear (room u (by simp))
    obtain ⟨next, leads⟩ := ih (fun v member => settles v (by simp [member])) still
      fun v member takes => Nat.le_trans fewer (room v (by simp [member]) takes)
    exact ⟨next, .cons stepped leads⟩

end Microcode
