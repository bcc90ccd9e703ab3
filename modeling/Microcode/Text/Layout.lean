namespace Microcode

inductive Alignment where
  | left
  | right
  | centre
  deriving DecidableEq

-- How a text is set into a column. It is cut to `precision` characters first and
-- then filled to `width`; a centred text has the odd character on its right.
structure Layout where
  alignment : Alignment := .left
  fill : Char := ' '
  width : Nat := 0
  precision : Option Nat := none
  deriving DecidableEq

namespace Layout

def ofFlags? (flags : String) (width : Nat) (precision : Option Nat) : Option Layout :=
  let layout : Layout := { width, precision }
  match flags with
  | "" | "<" | "0" => some layout
  | ">" => some { layout with alignment := .right }
  | "^" => some { layout with alignment := .centre }
  | "*^" => some { layout with alignment := .centre, fill := '*' }
  | _ => none

def cut (l : Layout) (text : List Char) : List Char :=
  match l.precision with
  | none => text
  | some most => text.take most

def margins (l : Layout) (length : Nat) : Nat × Nat :=
  let room := l.width - length
  match l.alignment with
  | .left => (0, room)
  | .right => (room, 0)
  | .centre => (room / 2, room - room / 2)

def set (l : Layout) (text : List Char) : List Char :=
  let kept := l.cut text
  let (before, after) := l.margins kept.length
  List.replicate before l.fill ++ kept ++ List.replicate after l.fill

def apply (l : Layout) (text : String) : String :=
  String.ofList (l.set text.toList)

theorem margins_sum (l : Layout) (length : Nat) :
    (l.margins length).1 + (l.margins length).2 = l.width - length := by
  simp only [margins]
  cases l.alignment <;> simp only <;> omega

theorem length_set (l : Layout) (text : List Char) :
    (l.set text).length = max l.width (l.cut text).length := by
  have sum := l.margins_sum (l.cut text).length
  simp only [set, List.length_append, List.length_replicate]
  omega

end Layout

def Text.left (width : Nat) (text : String) : String :=
  { width : Layout }.apply text

def Text.right (width : Nat) (text : String) : String :=
  { alignment := .right, width : Layout }.apply text

end Microcode
