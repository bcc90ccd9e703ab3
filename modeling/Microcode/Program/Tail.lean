import Microcode.Instruction.Operation
import Microcode.Program.MicroOp

namespace Microcode.Program

-- Moves the operand between memory and the data buffer, low byte first. A read
-- performs on what it fetched; a write performs first and stores the result.
def transfer : Access → Width → Program
  | .read, .eight => [.cycle .fetchData, .perform]
  | .read, .sixteen => [.cycle .fetchDataUp, .cycle .fetchData, .perform]
  | .write, .eight => [.perform, .cycle .storeData]
  | .write, .sixteen => [.perform, .cycle .storeDataUp, .cycle .storeData]

-- Reads, spends the cycle of the modification, and writes back where it read.
-- Eight bits rewrite the old byte meanwhile; sixteen bits read the high byte
-- again and then store high before low, so that the address steps back.
def modify : Width → Program
  | .eight => [.cycle .fetchData, .cycle .rewriteData, .perform, .cycle .storeData]
  | .sixteen =>
    [.cycle .fetchDataUp, .cycle .fetchData, .cycle .idleData, .perform, .cycle .storeDataDown,
      .cycle .storeData]

end Microcode.Program
