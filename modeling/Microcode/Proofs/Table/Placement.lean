import Mathlib.Data.List.Basic
import Microcode.Table.Build

namespace Microcode

namespace Builder

theorem toList_append (store : Array MicroOp) (p : Program) :
    (append store p).toList = store.toList ++ (p ++ [.endOfProgram]) := by
  rw [append, Array.toList_appendList, Array.toList_appendList, List.append_assoc]

theorem size_append (store : Array MicroOp) (p : Program) :
    (append store p).size = store.size + p.length + 1 := by
  rw [← Array.length_toList, toList_append]
  simp [Nat.add_assoc]

theorem take_append (store : Array MicroOp) (p : Program) :
    (append store p).take store.size = store := by
  apply Array.toList_inj.mp
  simp [toList_append, List.extract_eq_take_drop]

theorem extract_append (store : Array MicroOp) (p : Program) :
    ((append store p).extract store.size).toList = p ++ [.endOfProgram] := by
  rw [Array.toList_extract, List.extract_eq_take_drop, toList_append,
    List.drop_left' Array.length_toList]
  apply List.take_of_length_le
  rw [size_append, List.length_append, List.length_singleton]
  omega

theorem extract_append_append (store : Array MicroOp) (p q : Program) :
    ((append (append store p) q).extract store.size (append store p).size).toList =
      p ++ [.endOfProgram] := by
  rw [Array.toList_extract, List.extract_eq_take_drop, toList_append, toList_append, size_append,
    List.append_assoc, List.drop_left' Array.length_toList]
  apply List.take_left'
  simp
  omega

-- Since each segment has its end marker, two are the same just where their
-- programs are.
theorem generate_eq (store : Array MicroOp) (k : ProgramKey) :
    generate store k =
      if k.program .sixteen = k.program .eight then
        (append store (k.program .eight), ⟨store.size, store.size⟩)
      else
        (append (append store (k.program .eight)) (k.program .sixteen),
          ⟨store.size, (append store (k.program .eight)).size⟩) := by
  let front := append store (k.program .eight)
  let both := append front (k.program .sixteen)
  have alike : both.extract store.size front.size = both.extract front.size ↔
      k.program .sixteen = k.program .eight := by
    rw [← Array.toList_inj, extract_append_append, extract_append, List.append_cancel_right_eq,
      eq_comm]
  have dropped : both.take front.size = front := take_append front (k.program .sixteen)
  change (if both.extract store.size front.size = both.extract front.size then
    (both.take front.size, _) else (both, _)) = _
  simp only [alike, dropped]
  rfl

end Builder

def Placed (store : Array MicroOp) (offset : Nat) (p : Program) : Prop :=
  ∃ before after, store.toList = before ++ (p ++ .endOfProgram :: after) ∧ before.length = offset

namespace Placed

variable {store longer : Array MicroOp} {offset : Nat} {p : Program}

theorem at_end (store : Array MicroOp) (p : Program) :
    Placed (Builder.append store p) store.size p :=
  ⟨store.toList, [], Builder.toList_append store p, Array.length_toList⟩

theorem extend (placed : Placed store offset p) (grown : store.toList <+: longer.toList) :
    Placed longer offset p := by
  obtain ⟨before, after, parts, length⟩ := placed
  obtain ⟨more, whole⟩ := grown
  refine ⟨before, after ++ more, ?_, length⟩
  rw [← whole, parts]
  simp

theorem getElem? (placed : Placed store offset p) {i : Nat} (inside : i ≤ p.length) :
    store[offset + i]? = (p ++ [MicroOp.endOfProgram])[i]? := by
  obtain ⟨before, after, parts, rfl⟩ := placed
  have regroup : p ++ .endOfProgram :: after = (p ++ [.endOfProgram]) ++ after := by simp
  rw [← Array.getElem?_toList, parts, List.getElem?_append_right (Nat.le_add_right ..),
    Nat.add_sub_cancel_left, regroup, List.getElem?_append_left (by simp; omega)]

end Placed

theorem Table.programAt_of_placed {t : Table} {offset : Nat} {p : Program}
    (placed : Placed t.store offset p) (unmarked : MicroOp.endOfProgram ∉ p) :
    t.programAt offset = p := by
  obtain ⟨before, after, parts, length⟩ := placed
  rw [Table.programAt, parts, List.drop_left' length, List.takeWhile_append_of_pos]
  · simp
  · intro u member
    have other : u ≠ .endOfProgram := fun same => unmarked (same ▸ member)
    simp [other]

end Microcode
