namespace Microcode.Hex

def digit (n : Nat) : Char :=
  if n < 10 then Char.ofNat (48 + n) else Char.ofNat (55 + n)

def digits (n : Nat) : List Char :=
  if n < 16 then [digit n] else digits (n / 16) ++ [digit (n % 16)]

def padded (least n : Nat) : List Char :=
  List.leftpad least '0' (digits n)

def upper (least n : Nat) : String :=
  String.ofList (padded least n)

theorem digits_of_lt {n : Nat} (small : n < 16) : digits n = [digit n] := by
  rw [digits, if_pos small]

theorem digits_of_le {n : Nat} (large : 16 ≤ n) :
    digits n = digits (n / 16) ++ [digit (n % 16)] := by
  rw [digits, if_neg (by omega)]

theorem length_digits_pos (n : Nat) : 0 < (digits n).length := by
  rw [digits]
  split <;> simp

theorem length_padded_ge (least n : Nat) : least ≤ (padded least n).length := by
  simp only [padded, List.leftpad, List.length_append, List.length_replicate]
  omega

theorem padded_succ {least : Nat} (positive : 0 < least) (n : Nat) :
    padded (least + 1) n = padded least (n / 16) ++ [digit (n % 16)] := by
  unfold padded
  by_cases small : n < 16
  · obtain ⟨zeros, rfl⟩ := Nat.exists_eq_add_of_le' positive
    rw [digits_of_lt small, Nat.div_eq_of_lt small, Nat.mod_eq_of_lt small,
      digits_of_lt (Nat.zero_lt_succ 15)]
    simp only [List.leftpad, List.length_singleton, Nat.add_sub_cancel, List.replicate_succ']
    rfl
  · have long := length_digits_pos (n / 16)
    rw [digits_of_le (Nat.le_of_not_lt small)]
    simp only [List.leftpad, List.length_append, List.length_singleton, List.append_assoc,
      Nat.add_sub_add_right]

end Microcode.Hex
