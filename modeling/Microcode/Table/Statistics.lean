import Microcode.Table.Basic

namespace Microcode

structure Statistics where
  microOps : Nat := 0
  opcodes : Nat := 0
  programs : Nat := 0
  sharedPrograms : Nat := 0
  deriving DecidableEq

-- Programs are told apart by where they start.
def Table.statistics (t : Table) : Statistics :=
  let entries := t.implemented.map (·.2)
  { microOps := t.store.size
    opcodes := entries.length
    programs := (entries.flatMap fun e => [e.eightOffset, e.sixteenOffset]).eraseDups.length
    sharedPrograms := ((entries.filter (·.isShared)).map (·.eightOffset)).eraseDups.length }

namespace Statistics

def lines (s : Statistics) : List String :=
  [s!"micro-ops:       {s.microOps}",
    s!"opcodes:         {s.opcodes}",
    s!"programs:        {s.programs}",
    s!"shared programs: {s.sharedPrograms}"]

instance : ToString Statistics where
  toString s := "\n".intercalate s.lines

end Statistics

end Microcode
