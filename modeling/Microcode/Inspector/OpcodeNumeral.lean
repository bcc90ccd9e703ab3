namespace Microcode.Inspector

inductive NumeralError where
  | empty
  | invalidDigit
  | tooLarge
  deriving DecidableEq

def NumeralError.message : NumeralError → String
  | .empty => "cannot parse integer from empty string"
  | .invalidDigit => "invalid digit found in string"
  | .tooLarge => "number too large to fit in target type"

namespace Numeral

def digit? (radix : Nat) (c : Char) : Option Nat :=
  let value :=
    if '0' ≤ c ∧ c ≤ '9' then some (c.toNat - '0'.toNat)
    else if 'a' ≤ c ∧ c ≤ 'f' then some (c.toNat - 'a'.toNat + 10)
    else if 'A' ≤ c ∧ c ≤ 'F' then some (c.toNat - 'A'.toNat + 10)
    else none
  value.filter (· < radix)

def accumulate (radix : Nat) : Nat → List Char → Except NumeralError Nat
  | value, [] => .ok value
  | value, c :: rest =>
    match digit? radix c with
    | none => .error .invalidDigit
    | some d =>
      let next := value * radix + d
      if next < 256 then accumulate radix next rest else .error .tooLarge

-- A plus sign may precede the digits, of which there is at least one. A minus
-- sign is no part of an unsigned number.
def unsigned (radix : Nat) : List Char → Except NumeralError Nat
  | [] => .error .empty
  | ['+'] => .error .invalidDigit
  | '+' :: digits => accumulate radix 0 digits
  | digits => accumulate radix 0 digits

def hexPart? : List Char → Option (List Char)
  | '0' :: 'x' :: rest => some rest
  | '$' :: rest => some rest
  | _ => none

-- Decimal comes first; hexadecimal is for what is not decimal and is marked. The
-- error is the one of the reading tried last.
def opcode (text : List Char) : Except NumeralError Nat :=
  match unsigned 10 text with
  | .ok value => .ok value
  | .error error =>
    match hexPart? text with
    | some rest => unsigned 16 rest
    | none => .error error

end Numeral

def opcodeOfText (text : String) : Except NumeralError UInt8 :=
  (Numeral.opcode text.toList).map UInt8.ofNat

end Microcode.Inspector
