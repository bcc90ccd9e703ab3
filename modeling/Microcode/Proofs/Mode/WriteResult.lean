import Microcode.Bench.Memory
import Microcode.Bench.Reference
import Microcode.Proofs.Execution.Dispatches
import Microcode.Proofs.Mode.Head
import Microcode.Proofs.Mode.Result

namespace Microcode

section

variable {β ε : Type} [Bus β] [Executor ε]

end

end Microcode
