import Bytecode.CommandLine.Files
import Bytecode.Executable.Compact
import Bytecode.Main
import Bytecode.Proofs.Code.History
import Bytecode.Proofs.Code.Lining
import Bytecode.Proofs.Code.Reencoding
import Bytecode.Proofs.Heap.Collector
import Bytecode.Proofs.Machine.Integrity
import Bytecode.Proofs.Machine.Handles
import Bytecode.Proofs.Machine.ControlFlow
import Bytecode.Proofs.Generate.Spots
import Bytecode.Proofs.Generate.Balance
import Bytecode.Proofs.Machine.Guarded
import Bytecode.Proofs.Machine.Dangling
import Bytecode.Proofs.Heap.Alike
import Bytecode.Proofs.Machine.Alike
import Bytecode.Proofs.Machine.Lockstep
import Bytecode.Proofs.Machine.Unobservable
import Bytecode.Proofs.Generate.Rules
import Bytecode.Proofs.Generate.Loops
import Bytecode.Proofs.Generate.Labels
import Bytecode.Proofs.Generate.Literals
import Bytecode.Proofs.Semantics.Evaluator
import Bytecode.Proofs.Semantics.Scalar
import Bytecode.Proofs.Semantics.Simulation
import Bytecode.Proofs.Semantics.Stepping
import Bytecode.Proofs.Semantics.Calling
import Bytecode.Proofs.Semantics.Expr
import Bytecode.Proofs.Semantics.Stmt
import Bytecode.Proofs.Semantics.Correctness
import Bytecode.Proofs.Layout.Hierarchy
import Bytecode.Proofs.Machine.RoundTrip
import Bytecode.Proofs.Machine.StackLimit
import Bytecode.Proofs.Machine.Dispatch
import Bytecode.Proofs.Machine.FaultLocations
import Bytecode.Proofs.Typing.Rules
import Bytecode.Proofs.Typing.Plan
import Bytecode.Proofs.Typing.Scheme
import Bytecode.Proofs.Typing.Values
import Bytecode.Proofs.Typing.Operations
import Bytecode.Proofs.Typing.Frames
import Bytecode.Proofs.Typing.Soundness
import Bytecode.Proofs.Heap.Bookkeeping
import Bytecode.Proofs.Machine.HeapBound
import Bytecode.Proofs.Machine.Faults
import Bytecode.Proofs.Machine.HostCalls
import Bytecode.Proofs.Machine.Effects
import Bytecode.Proofs.Stack.ListModel
import Bytecode.Proofs.Stack.ParallelArrays
import Bytecode.Proofs.Machine.Literals
import Bytecode.Proofs.Layout.Acceptance
import Bytecode.Proofs.Machine.Evolution
import Bytecode.Proofs.Machine.Linking
import Bytecode.Proofs.Machine.Outlines
import Bytecode.Proofs.Tree.Form
import Bytecode.Proofs.Tree.Reading
