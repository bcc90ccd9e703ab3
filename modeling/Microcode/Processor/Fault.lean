namespace Microcode

-- Why a step cannot go on. Faults come from values no program produces by
-- itself: a caller or an executor has to leave them behind.
inductive Fault where
  | bufferFull
  | byteOutOfReach
  | sumOutOfReach
  | positionOutOfReach (position size : Nat)
  deriving DecidableEq

namespace Fault

def message : Fault → String
  | .bufferFull => "buffer overflow"
  | .byteOutOfReach => "attempt to shift right with overflow"
  | .sumOutOfReach => "attempt to add with overflow"
  | .positionOutOfReach position size =>
    s!"index out of bounds: the len is {size} but the index is {position}"

end Fault

end Microcode
