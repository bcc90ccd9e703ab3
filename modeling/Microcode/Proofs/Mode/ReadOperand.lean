import Microcode.Bench.Session
import Microcode.Proofs.Execution.Dispatches
import Microcode.Proofs.Mode.Head

namespace Microcode

section

variable {β ε : Type} [Bus β] [Executor ε]

end

end Microcode
