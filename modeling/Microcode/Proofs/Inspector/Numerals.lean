import Mathlib
import Microcode.Inspector.OpcodeNumeral

namespace Microcode.Inspector

def IsDigit (radix : Nat) (c : Char) (d : Nat) : Prop :=
  d < radix ∧ (c = d.digitChar ∨ c = d.digitChar.toUpper)

def Writes (radix : Nat) (digits : List Char) (value : Nat) : Prop :=
  ∃ ds, List.Forall₂ (IsDigit radix) digits ds ∧ Nat.ofDigits radix ds.reverse = value

def Unsigned (radix : Nat) (text : List Char) (value : Nat) : Prop :=
  ∃ digits, (text = digits ∨ text = '+' :: digits) ∧ digits ≠ [] ∧
    Writes radix digits value ∧ value ≤ 0xff

inductive Stops (radix : Nat) : List Char → NumeralError → Prop
  | noDigit {front rest : List Char} {c : Char} {value : Nat} : Writes radix front value →
      value ≤ 0xff → (∀ d, ¬ IsDigit radix c d) → Stops radix (front ++ c :: rest) .invalidDigit
  | beyond {front rest : List Char} {value : Nat} : Writes radix front value → 0xff < value →
      Stops radix (front ++ rest) .tooLarge

inductive Refused (radix : Nat) : List Char → NumeralError → Prop
  | empty : Refused radix [] .empty
  | bareSign : Refused radix ['+'] .invalidDigit
  | signed {digits : List Char} {error : NumeralError} : Stops radix digits error →
      Refused radix ('+' :: digits) error
  | unsigned {digits : List Char} {error : NumeralError} : digits.head? ≠ some '+' →
      Stops radix digits error → Refused radix digits error

def Marked (text rest : List Char) : Prop :=
  text = '0' :: 'x' :: rest ∨ text = '$' :: rest

def Decimal (text : List Char) (value : Nat) : Prop :=
  Unsigned 10 text value

def Hexadecimal (text : List Char) (value : Nat) : Prop :=
  ∃ rest, Marked text rest ∧ Unsigned 16 rest value

section

variable {radix : Nat} {c : Char} {d : Nat}

theorem isDigit_iff (few : radix ≤ 16) :
    IsDigit radix c d ↔ d < radix ∧
      (d < 10 ∧ c.toNat = d + 48 ∨ 10 ≤ d ∧ (c.toNat = d + 87 ∨ c.toNat = d + 55)) := by
  refine and_congr_right fun small => ?_
  have bound : d < 16 := by omega
  have numerals : ∀ d < 10, d.digitChar.toNat = d + 48 ∧ d.digitChar.toUpper.toNat = d + 48 := by
    decide
  have letters : ∀ d < 16, 10 ≤ d →
      d.digitChar.toNat = d + 87 ∧ d.digitChar.toUpper.toNat = d + 55 := by
    decide
  rw [← Char.toNat_inj, ← Char.toNat_inj]
  by_cases numeral : d < 10
  · obtain ⟨lower, upper⟩ := numerals d numeral
    omega
  · obtain ⟨lower, upper⟩ := letters d bound (by omega)
    omega

theorem digit?_eq_some_iff (few : radix ≤ 16) :
    Numeral.digit? radix c = some d ↔ IsDigit radix c d := by
  have le_iff : ∀ a b : Char, a ≤ b ↔ a.toNat ≤ b.toNat := fun a b => UInt32.le_iff_toNat_le
  rw [isDigit_iff few, Numeral.digit?, Option.filter_eq_some_iff, decide_eq_true_eq, and_comm]
  refine and_congr_right fun small => ?_
  simp only [le_iff, Char.reduceToNat]
  split
  · rw [Option.some.injEq]
    omega
  split
  · rw [Option.some.injEq]
    omega
  split
  · rw [Option.some.injEq]
    omega
  · simp only [reduceCtorEq, false_iff]
    omega

theorem not_isDigit_of_digit? (few : radix ≤ 16) (none : Numeral.digit? radix c = none) (d : Nat) :
    ¬ IsDigit radix c d := by
  intro digit
  rw [(digit?_eq_some_iff few).mpr digit] at none
  cases none

theorem IsDigit.rightUnique (few : radix ≤ 16) : Relator.RightUnique (IsDigit radix) := by
  intro c d e one two
  rw [← digit?_eq_some_iff few] at one two
  exact Option.some.inj (one.symm.trans two)

end

namespace Writes

variable {radix : Nat} {front rest : List Char} {c : Char} {d v w : Nat}

theorem nil : Writes radix [] 0 :=
  ⟨[], .nil, rfl⟩

theorem concat (read : Writes radix front v) (digit : IsDigit radix c d) :
    Writes radix (front ++ [c]) (v * radix + d) := by
  obtain ⟨ds, digits, rfl⟩ := read
  refine ⟨ds ++ [d], List.rel_append digits (.cons digit .nil), ?_⟩
  rw [List.reverse_append, List.reverse_singleton, List.singleton_append, Nat.ofDigits_cons,
    Nat.mul_comm, Nat.add_comm]

theorem isDigit (read : Writes radix front v) (member : c ∈ front) : ∃ d, IsDigit radix c d := by
  obtain ⟨ds, digits, -⟩ := read
  induction digits with
  | nil => cases member
  | @cons _ d _ _ digit _ ih =>
    rcases List.mem_cons.mp member with rfl | later
    · exact ⟨d, digit⟩
    · exact ih later

theorem unique (few : radix ≤ 16) (one : Writes radix front v) (two : Writes radix front w) :
    v = w := by
  obtain ⟨ds, first, rfl⟩ := one
  obtain ⟨es, second, rfl⟩ := two
  have same : ds = es := List.right_unique_forall₂' (IsDigit.rightUnique few) first second
  rw [same]

-- Digits behind a number make it no less.
theorem le_append (some : 0 < radix) (few : radix ≤ 16) (short : Writes radix front v)
    (long : Writes radix (front ++ rest) w) : v ≤ w := by
  obtain ⟨ds, digits, rfl⟩ := long
  have prefixed := List.forall₂_take front.length digits
  rw [List.take_left] at prefixed
  have same : Nat.ofDigits radix (ds.take front.length).reverse = v :=
    Writes.unique few ⟨_, prefixed, rfl⟩ short
  calc v ≤ radix ^ (ds.drop front.length).length * v :=
        Nat.le_mul_of_pos_left v (Nat.pow_pos some)
    _ ≤ Nat.ofDigits radix (ds.drop front.length).reverse +
          radix ^ (ds.drop front.length).length * v := Nat.le_add_left ..
    _ = Nat.ofDigits radix ds.reverse := by
        rw [← same, ← (ds.drop front.length).length_reverse, ← Nat.ofDigits_append,
          ← List.reverse_append, List.take_append_drop]

end Writes

namespace Numeral

variable {radix : Nat}

theorem accumulate_of_digit {c : Char} {d : Nat} (found : digit? radix c = some d) (value : Nat)
    (rest : List Char) :
    accumulate radix value (c :: rest) =
      if value * radix + d < 256 then accumulate radix (value * radix + d) rest
      else .error .tooLarge := by
  rw [accumulate, found]

theorem accumulate_of_other {c : Char} (none : digit? radix c = none) (value : Nat)
    (rest : List Char) : accumulate radix value (c :: rest) = .error .invalidDigit := by
  rw [accumulate, none]

theorem accumulate_eq_ok_iff (few : radix ≤ 16) {front : List Char} {value : Nat}
    (read : Writes radix front value) (fits : value ≤ 0xff) (rest : List Char) (w : Nat) :
    accumulate radix value rest = .ok w ↔ Writes radix (front ++ rest) w ∧ w ≤ 0xff := by
  induction rest generalizing front value with
  | nil =>
    rw [accumulate, List.append_nil, Except.ok.injEq]
    constructor
    · rintro rfl
      exact ⟨read, fits⟩
    · rintro ⟨again, -⟩
      exact read.unique few again
  | cons c rest ih =>
    cases found : digit? radix c with
    | none =>
      rw [accumulate_of_other found]
      refine iff_of_false nofun fun ⟨whole, _⟩ => ?_
      obtain ⟨d, digit⟩ := whole.isDigit (c := c) (by simp)
      exact not_isDigit_of_digit? few found d digit
    | some d =>
      have digit := (digit?_eq_some_iff few).mp found
      have next := read.concat digit
      rw [accumulate_of_digit found, List.append_cons]
      split
      · exact ih next (by omega)
      · refine iff_of_false nofun fun ⟨whole, bound⟩ => ?_
        have grown := next.le_append (Nat.zero_lt_of_lt digit.1) few whole
        omega

theorem stops_of_accumulate (few : radix ≤ 16) {front rest : List Char} {value : Nat}
    (read : Writes radix front value) (fits : value ≤ 0xff) {error : NumeralError}
    (refused : accumulate radix value rest = .error error) : Stops radix (front ++ rest) error := by
  induction rest generalizing front value with
  | nil => cases refused
  | cons c rest ih =>
    cases found : digit? radix c with
    | none =>
      rw [accumulate_of_other found] at refused
      cases refused
      exact .noDigit read fits (not_isDigit_of_digit? few found)
    | some d =>
      have next := read.concat ((digit?_eq_some_iff few).mp found)
      rw [accumulate_of_digit found] at refused
      rw [List.append_cons]
      split at refused
      · exact ih next (by omega) refused
      · cases refused
        exact .beyond next (by omega)

theorem not_isDigit_sign (few : radix ≤ 16) (d : Nat) : ¬ IsDigit radix '+' d := by
  rw [isDigit_iff few, show '+'.toNat = 43 from rfl]
  omega

theorem unsigned_signed_iff (few : radix ≤ 16) {digits : List Char} {value : Nat} :
    Unsigned radix ('+' :: digits) value ↔
      digits ≠ [] ∧ Writes radix digits value ∧ value ≤ 0xff := by
  constructor
  · rintro ⟨written, same | same, given, read, fits⟩
    · obtain ⟨d, digit⟩ := read.isDigit (same ▸ List.mem_cons_self)
      exact absurd digit (not_isDigit_sign few d)
    · obtain rfl := List.tail_eq_of_cons_eq same
      exact ⟨given, read, fits⟩
  · rintro ⟨given, read, fits⟩
    exact ⟨digits, .inr rfl, given, read, fits⟩

theorem unsigned_bare_iff {text : List Char} (bare : text.head? ≠ some '+') {value : Nat} :
    Unsigned radix text value ↔ text ≠ [] ∧ Writes radix text value ∧ value ≤ 0xff := by
  constructor
  · rintro ⟨digits, rfl | rfl, given, read, fits⟩
    · exact ⟨given, read, fits⟩
    · exact absurd rfl bare
  · rintro ⟨given, read, fits⟩
    exact ⟨text, .inl rfl, given, read, fits⟩

theorem unsigned_of_signed {digits : List Char} (given : digits ≠ []) :
    unsigned radix ('+' :: digits) = accumulate radix 0 digits := by
  cases digits with
  | nil => exact absurd rfl given
  | cons => rfl

theorem unsigned_of_bare {text : List Char} (given : text ≠ []) (bare : text.head? ≠ some '+') :
    unsigned radix text = accumulate radix 0 text := by
  fun_cases unsigned radix text with
  | case1 => exact absurd rfl given
  | case2 | case3 => exact absurd rfl bare
  | case4 => rfl

theorem sign_cases (text : List Char) :
    text = [] ∨ text = ['+'] ∨ (∃ digits, digits ≠ [] ∧ text = '+' :: digits) ∨
      text ≠ [] ∧ text.head? ≠ some '+' := by
  rcases text with _ | ⟨c, digits⟩
  · exact .inl rfl
  by_cases sign : c = '+'
  · subst sign
    by_cases given : digits = []
    · exact .inr (.inl (given ▸ rfl))
    · exact .inr (.inr (.inl ⟨digits, given, rfl⟩))
  · exact .inr (.inr (.inr ⟨List.cons_ne_nil c digits, fun same => sign (Option.some.inj same)⟩))

-- The sign is looked for once: what follows it begins with a digit.
theorem unsigned_eq_ok_iff (few : radix ≤ 16) (text : List Char) (value : Nat) :
    unsigned radix text = .ok value ↔ Unsigned radix text value := by
  have whole : ∀ digits, accumulate radix 0 digits = .ok value ↔
      Writes radix digits value ∧ value ≤ 0xff :=
    fun digits => accumulate_eq_ok_iff few .nil (by decide) digits value
  rcases sign_cases text with rfl | rfl | ⟨digits, given, rfl⟩ | ⟨given, bare⟩
  · rw [unsigned_bare_iff (by decide)]
    exact iff_of_false nofun fun none => none.1 rfl
  · rw [unsigned_signed_iff few]
    exact iff_of_false nofun fun none => none.1 rfl
  · rw [unsigned_signed_iff few, unsigned_of_signed given, whole, and_iff_right given]
  · rw [unsigned_bare_iff bare, unsigned_of_bare given bare, whole, and_iff_right given]

theorem refused_of_unsigned (few : radix ≤ 16) {text : List Char} {error : NumeralError}
    (refused : unsigned radix text = .error error) : Refused radix text error := by
  have stops : ∀ {digits}, accumulate radix 0 digits = .error error → Stops radix digits error :=
    fun failed => stops_of_accumulate few .nil (by decide) failed
  rcases sign_cases text with rfl | rfl | ⟨digits, given, rfl⟩ | ⟨given, bare⟩
  · cases refused
    exact .empty
  · cases refused
    exact .bareSign
  · rw [unsigned_of_signed given] at refused
    exact .signed (stops refused)
  · rw [unsigned_of_bare given bare] at refused
    exact .unsigned bare (stops refused)

theorem hexPart?_eq_some_iff (text rest : List Char) :
    hexPart? text = some rest ↔ Marked text rest := by
  fun_cases hexPart? text with
  | case1 | case2 => simp [Marked]
  | case3 _ zero dollar =>
    refine iff_of_false nofun fun marked => ?_
    rcases marked with rfl | rfl
    · exact zero rest rfl
    · exact dollar rest rfl

theorem not_decimal_of_marked {text rest : List Char} (marked : Marked text rest) (value : Nat) :
    ¬ Decimal text value := by
  have strange : ∀ c ∈ ['x', '$'], ∀ d, ¬ IsDigit 10 c d := by
    intro c member d
    rw [isDigit_iff (by decide)]
    rcases List.mem_pair.mp member with rfl | rfl
    · rw [show 'x'.toNat = 120 from rfl]
      omega
    · rw [show '$'.toNat = 36 from rfl]
      omega
  rintro ⟨digits, rfl | rfl, -, read, -⟩
  · rcases marked with rfl | rfl
    · obtain ⟨d, digit⟩ := read.isDigit (c := 'x') (by simp)
      exact strange 'x' (by simp) d digit
    · obtain ⟨d, digit⟩ := read.isDigit (c := '$') (by simp)
      exact strange '$' (by simp) d digit
  · rcases marked with same | same <;> cases same

theorem opcode_of_marked {text rest : List Char} (marked : Marked text rest) :
    opcode text = unsigned 16 rest := by
  have found := (hexPart?_eq_some_iff text rest).mpr marked
  cases decimal : unsigned 10 text with
  | ok value =>
    exact absurd ((unsigned_eq_ok_iff (by decide) text value).mp decimal)
      (not_decimal_of_marked marked value)
  | error error => rw [opcode, decimal]; simp only [found]

theorem opcode_of_unmarked {text : List Char} (unmarked : ∀ rest, ¬ Marked text rest) :
    opcode text = unsigned 10 text := by
  have none : hexPart? text = none :=
    Option.eq_none_iff_forall_ne_some.mpr fun rest found =>
      unmarked rest ((hexPart?_eq_some_iff text rest).mp found)
  rw [opcode, none]
  cases unsigned 10 text <;> rfl

theorem opcode_eq_ok_iff (text : List Char) (value : Nat) :
    opcode text = .ok value ↔ Decimal text value ∨ Hexadecimal text value := by
  by_cases given : ∃ rest, Marked text rest
  · obtain ⟨rest, marked⟩ := given
    rw [opcode_of_marked marked, unsigned_eq_ok_iff (by decide),
      or_iff_right (not_decimal_of_marked marked value)]
    constructor
    · intro read
      exact ⟨rest, marked, read⟩
    · rintro ⟨other, again, read⟩
      obtain rfl : other = rest := by
        rw [← hexPart?_eq_some_iff] at marked again
        exact Option.some.inj (again.symm.trans marked)
      exact read
  · have unmarked := not_exists.mp given
    rw [opcode_of_unmarked unmarked, unsigned_eq_ok_iff (by decide)]
    exact (or_iff_left fun ⟨rest, marked, _⟩ => unmarked rest marked).symm

end Numeral

structure ReadsOpcode (text : String) : Prop where
  accepts : ∀ value, opcodeOfText text = .ok value ↔
    Decimal text.toList value.toNat ∨ Hexadecimal text.toList value.toNat
  apart : ∀ v w, Decimal text.toList v → ¬ Hexadecimal text.toList w
  unambiguous : ∀ v w, Decimal text.toList v ∨ Hexadecimal text.toList v →
    Decimal text.toList w ∨ Hexadecimal text.toList w → v = w
  -- All else is refused, for the reason that the number behind the mark is or, of
  -- a text without a mark, the decimal number.
  refuses : (∀ value, ¬ (Decimal text.toList value ∨ Hexadecimal text.toList value)) →
    ∃ error, opcodeOfText text = .error error ∧
      (∀ rest, Marked text.toList rest →
        Numeral.unsigned 16 rest = .error error ∧ Refused 16 rest error) ∧
      ((∀ rest, ¬ Marked text.toList rest) →
        Numeral.unsigned 10 text.toList = .error error ∧ Refused 10 text.toList error)

theorem reads_opcode (text : String) : ReadsOpcode text := by
  have bounded : ∀ value, Decimal text.toList value ∨ Hexadecimal text.toList value →
      value ≤ 0xff := by
    rintro value (⟨_, _, _, _, fits⟩ | ⟨_, _, _, _, _, _, fits⟩) <;> exact fits
  constructor
  · intro value
    rw [← Numeral.opcode_eq_ok_iff, opcodeOfText]
    cases made : Numeral.opcode text.toList with
    | error error => exact iff_of_false nofun nofun
    | ok read =>
      have fits := bounded read ((Numeral.opcode_eq_ok_iff _ _).mp made)
      have kept : (UInt8.ofNat read).toNat = read :=
        UInt8.toNat_ofNat_of_lt (Nat.lt_succ_of_le fits)
      rw [Except.map, Except.ok.injEq, Except.ok.injEq, ← UInt8.toNat_inj, kept]
  · rintro v w decimal ⟨rest, marked, -⟩
    exact Numeral.not_decimal_of_marked marked v decimal
  · intro v w one two
    rw [← Numeral.opcode_eq_ok_iff] at one two
    exact Except.ok.inj (one.symm.trans two)
  · intro neither
    cases made : Numeral.opcode text.toList with
    | ok value => exact absurd ((Numeral.opcode_eq_ok_iff _ _).mp made) (neither value)
    | error error =>
      refine ⟨error, by rw [opcodeOfText, made, Except.map], fun rest marked => ?_, fun plain => ?_⟩
      · rw [Numeral.opcode_of_marked marked] at made
        exact ⟨made, Numeral.refused_of_unsigned (by decide) made⟩
      · rw [Numeral.opcode_of_unmarked plain] at made
        exact ⟨made, Numeral.refused_of_unsigned (by decide) made⟩

example : ["+00255", "$+fF", "0X5", "0x", "+", "$100", "-1"].map opcodeOfText =
    [.ok 255, .ok 255, .error .invalidDigit, .error .empty, .error .invalidDigit,
      .error .tooLarge, .error .invalidDigit] := by
  decide

end Microcode.Inspector
