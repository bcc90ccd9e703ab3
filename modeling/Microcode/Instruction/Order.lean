namespace Microcode

def ascending {α : Type} [Ord α] (items : List α) : List α :=
  items.mergeSort fun a b => (compare a b).isLE

def neighbourOrder {α : Type} [Ord α] : List α → List Ordering
  | a :: b :: rest => compare a b :: neighbourOrder (b :: rest)
  | _ => []

def orderingName : Ordering → String
  | .lt => "Less"
  | .eq => "Equal"
  | .gt => "Greater"

end Microcode
