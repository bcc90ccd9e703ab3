namespace Microcode

inductive Width where
  | eight
  | sixteen
  deriving DecidableEq, Ord, Inhabited

namespace Width

def all : List Width := [.eight, .sixteen]

def name : Width → String
  | .eight => "EightBit"
  | .sixteen => "SixteenBit"

def ofName? (name : String) : Option Width :=
  all.find? (·.name == name)

def bits : Width → Nat
  | .eight => 8
  | .sixteen => 16

def ofBits? (bits : Nat) : Option Width :=
  all.find? (·.bits == bits)

def ofFlag (flag : Bool) : Width :=
  if flag then .eight else .sixteen

def bytes : Width → UInt8
  | .eight => 1
  | .sixteen => 2

def mask : Width → UInt16
  | .eight => 0x00ff
  | .sixteen => 0xffff

instance : ToString Width where
  toString
    | .eight => "8-bit"
    | .sixteen => "16-bit"

instance {p : Width → Prop} [DecidablePred p] : Decidable (∀ w, p w) :=
  decidable_of_iff (p .eight ∧ p .sixteen)
    ⟨fun both w => match w with
      | .eight => both.1
      | .sixteen => both.2, fun every => ⟨every _, every _⟩⟩

theorem ofName?_name (w : Width) : ofName? w.name = some w := by
  cases w <;> decide

theorem ofBits?_bits (w : Width) : ofBits? w.bits = some w := by
  cases w <;> decide

end Width

end Microcode
