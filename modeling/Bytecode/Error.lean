import Bytecode.Hex
import Bytecode.Tree.Ty

/-!
# Causes of failure

Each stage has its own type of causes: `DecodeError` for bytes that are no instruction,
`Defect` and `CompileError` for programs that cannot be compiled, `LinkError` for native
functions that cannot be bound, `Fault` and `RuntimeError` for runs that halt, `FileError` for
files that cannot be read. A `Failure` is any of these on the way from the path of a program to
the end of its run. The wording of each is its
`message`.

`Stop` adds to the causes of an operation the crash, which ends the host program: the
operation was asked for something that only broken code asks for.
-/

namespace Bytecode

/-- Why an operation ends early. -/
inductive Stop (ε : Type) where
  | error (cause : ε)
  /-- The operation cannot be carried out at all. -/
  | crash
  deriving DecidableEq, Repr, Inhabited

/-- Why an instruction cannot be decoded. -/
inductive DecodeError where
  | unknownOpcode (byte : UInt8) (pc : Nat)
  | truncated (pc : Nat)
  /-- The constant is missing or is not of the kind that the instruction pushes. -/
  | badConstant (index : Nat)
  deriving DecidableEq, Repr

namespace DecodeError

def message : DecodeError → String
  | .unknownOpcode byte pc => s!"unknown opcode 0x{hexByte byte} at pc {pc}"
  | .truncated pc => s!"instruction at pc {pc} is truncated"
  | .badConstant index => s!"constant #{index} is missing or has the wrong kind"

/-- A name by which programs tell the causes apart. -/
def name : DecodeError → String
  | .unknownOpcode .. => "UnknownOpcode"
  | .truncated _ => "Truncated"
  | .badConstant _ => "BadConstant"

end DecodeError

/-- What is wrong with a program. -/
inductive Defect where
  | functionMultipleDefine (name : String)
  | classMultipleDefine (name : String)
  | memberNotFound (className : String) (index : UInt16)
  | ifConditionNotBoolean (ty : String)
  | forConditionNotBoolean (ty : String)
  | breakOutsideLoop
  | continueOutsideLoop
  | assignToMethod
  | invalidAssignTarget
  | methodNotCalled
  | fieldOverridesMethod (className field : String)
  | methodOverridesField (className method : String)
  | fieldNameDuplicate (className field : String)
  | returnValueInVoidFunction (name : String)
  | returnOutsideFunction
  | localOutsideFunction
  | unknownClass (index : UInt16)
  | unknownFunction (index : UInt16)
  | classHierarchyCycle (name : String)
  | constantPoolOverflow
  | codeTooLarge
  | operandOutOfRange (mnemonic : String) (value : Int)
  | unresolvedLabel (number : UInt16)
  | malformedCode (error : DecodeError)
  deriving DecidableEq, Repr

namespace Defect

def message : Defect → String
  | .functionMultipleDefine name => s!"function '{name}' is defined more than once"
  | .classMultipleDefine name => s!"class '{name}' is defined more than once"
  | .memberNotFound className index => s!"member #{index} not found in class '{className}'"
  | .ifConditionNotBoolean ty => s!"condition of 'if' must be boolean, found {ty}"
  | .forConditionNotBoolean ty => s!"condition of 'for' must be boolean, found {ty}"
  | .breakOutsideLoop => "'break' outside of a loop"
  | .continueOutsideLoop => "'continue' outside of a loop"
  | .assignToMethod => "cannot assign to method"
  | .invalidAssignTarget => "invalid assignment target"
  | .methodNotCalled => "a method can only be called"
  | .fieldOverridesMethod className field =>
    s!"field '{field}' of class '{className}' overrides a method"
  | .methodOverridesField className method =>
    s!"method '{method}' of class '{className}' overrides a field"
  | .fieldNameDuplicate className field =>
    s!"field '{field}' is declared twice in the hierarchy of class '{className}'"
  | .returnValueInVoidFunction name =>
    s!"function '{name}' returns void but 'return' has a value"
  | .returnOutsideFunction => "'return' outside of a function"
  | .localOutsideFunction => "local variable used outside of a function"
  | .unknownClass index => s!"unknown class #{index}"
  | .unknownFunction index => s!"unknown function #{index}"
  | .classHierarchyCycle name => s!"class '{name}' inherits from itself"
  | .constantPoolOverflow => "constant pool is full"
  | .codeTooLarge => "code block exceeds the 64 KiB jump range"
  | .operandOutOfRange mnemonic value =>
    s!"operand {value} does not fit instruction {mnemonic}"
  | .unresolvedLabel number => s!"label {number} was never set"
  | .malformedCode error => s!"malformed generated code: {error.message}"

/-- A name by which programs tell the causes apart. -/
def name : Defect → String
  | .functionMultipleDefine _ => "FunctionMultipleDefine"
  | .classMultipleDefine _ => "ClassMultipleDefine"
  | .memberNotFound .. => "MemberNotFound"
  | .ifConditionNotBoolean _ => "IfConditionNotBoolean"
  | .forConditionNotBoolean _ => "ForConditionNotBoolean"
  | .breakOutsideLoop => "BreakOutsideLoop"
  | .continueOutsideLoop => "ContinueOutsideLoop"
  | .assignToMethod => "AssignToMethod"
  | .invalidAssignTarget => "InvalidAssignTarget"
  | .methodNotCalled => "MethodNotCalled"
  | .fieldOverridesMethod .. => "FieldOverridesMethod"
  | .methodOverridesField .. => "MethodOverridesField"
  | .fieldNameDuplicate .. => "FieldNameDuplicate"
  | .returnValueInVoidFunction _ => "ReturnValueInVoidFunction"
  | .returnOutsideFunction => "ReturnOutsideFunction"
  | .localOutsideFunction => "LocalOutsideFunction"
  | .unknownClass _ => "UnknownClass"
  | .unknownFunction _ => "UnknownFunction"
  | .classHierarchyCycle _ => "ClassHierarchyCycle"
  | .constantPoolOverflow => "ConstantPoolOverflow"
  | .codeTooLarge => "CodeTooLarge"
  | .operandOutOfRange .. => "OperandOutOfRange"
  | .unresolvedLabel _ => "UnresolvedLabel"
  | .malformedCode _ => "MalformedCode"

end Defect

/-- A defect and where it is. Compilation ends at the first one. -/
structure CompileError where
  defect : Defect
  position : Position
  deriving DecidableEq, Repr

namespace CompileError

def message (e : CompileError) : String := s!"{e.defect.message} at {e.position.text}"

end CompileError

/-- Why a native function cannot be bound to a host procedure. -/
inductive LinkError where
  | nativeNotFound (package name : String)
  | argumentCountMismatch (name : String) (registered declared : Nat)
  deriving DecidableEq, Repr

namespace LinkError

def message : LinkError → String
  | .nativeNotFound package name => s!"native function '{package}.{name}' is not registered"
  | .argumentCountMismatch name registered declared =>
    s!"native function '{name}' takes {registered} arguments, declared with {declared}"

/-- A name by which programs tell the causes apart. -/
def name : LinkError → String
  | .nativeNotFound .. => "NativeNotFound"
  | .argumentCountMismatch .. => "ArgumentCountMismatch"

end LinkError

/-- Why a run halts. -/
inductive Fault where
  | indexOutOfBounds (index : Int64) (size : Nat)
  | divisionByZero
  | nullPointer
  | classCast (source target : String)
  | stackOverflow (limit : Nat)
  | typeMismatch (expected found : String)
  | argumentCount (expected got : Nat)
  /-- A frame has no call record where it should be. -/
  | corruptStack (slot : Nat)
  | native (name text : String)
  | decode (error : DecodeError)
  deriving DecidableEq, Repr

namespace Fault

def message : Fault → String
  | .indexOutOfBounds index size => s!"array index {index} out of bounds (size {size})"
  | .divisionByZero => "division by zero"
  | .nullPointer => "null pointer dereference"
  | .classCast source target => s!"cannot cast {source} to {target}"
  | .stackOverflow limit => s!"stack overflow (limit {limit} slots)"
  | .typeMismatch expected found => s!"expected {expected}, found {found}"
  | .argumentCount expected got =>
    s!"wrong number of arguments: expected {expected}, got {got}"
  | .corruptStack slot => s!"no call info at stack slot {slot}"
  | .native name text => s!"{name}: {text}"
  | .decode error => s!"malformed bytecode: {error.message}"

/-- A name by which programs tell the causes apart. -/
def name : Fault → String
  | .indexOutOfBounds .. => "IndexOutOfBounds"
  | .divisionByZero => "DivisionByZero"
  | .nullPointer => "NullPointer"
  | .classCast .. => "ClassCast"
  | .stackOverflow _ => "StackOverflow"
  | .typeMismatch .. => "TypeMismatch"
  | .argumentCount .. => "ArgumentCount"
  | .corruptStack _ => "CorruptStack"
  | .native .. => "Native"
  | .decode _ => "Decode"

end Fault

/-- A fault and the function and line of the instruction that raised it. -/
structure RuntimeError where
  fault : Fault
  function : String
  line : UInt32
  deriving DecidableEq, Repr

namespace RuntimeError

def message (e : RuntimeError) : String :=
  s!"{e.fault.message} in {e.function} at line {e.line}"

end RuntimeError

/-- Why the text of a file cannot be obtained. -/
inductive FileError where
  | notFound
  | permissionDenied
  | notDirectory
  | isDirectory
  | nameTooLong
  /-- There is nothing behind a device. -/
  | noDevice
  /-- The text does not end before the memory does. -/
  | outOfMemory
  /-- The bytes are not the UTF-8 form of a text. -/
  | notText
  | other (reason : String)
  deriving DecidableEq, Repr, Inhabited

namespace FileError

/-- The words of the system, with its number for the cause. -/
def message : FileError → String
  | .notFound => "No such file or directory (os error 2)"
  | .permissionDenied => "Permission denied (os error 13)"
  | .notDirectory => "Not a directory (os error 20)"
  | .isDirectory => "Is a directory (os error 21)"
  | .nameTooLong => "File name too long (os error 36)"
  | .noDevice => "No such device or address (os error 6)"
  | .outOfMemory => "out of memory"
  | .notText => "stream did not contain valid UTF-8"
  | .other reason => reason

/-- The cause with a number of the system. -/
def ofCode? (code : UInt32) : Option FileError :=
  match code with
  | 2 => some .notFound
  | 6 => some .noDevice
  | 13 => some .permissionDenied
  | 20 => some .notDirectory
  | 21 => some .isDirectory
  | 36 => some .nameTooLong
  | _ => none

end FileError

/-- Why a program has not been run to its end. -/
inductive Failure where
  /-- The program text cannot be obtained. -/
  | unreadable (error : FileError)
  /-- The text is not that of a program. -/
  | invalid
  | compile (error : CompileError)
  | link (error : LinkError)
  | runtime (error : RuntimeError)
  deriving DecidableEq, Repr

namespace Failure

def message : Failure → String
  | .unreadable error => s!"IO error: {error.message}"
  | .invalid => "Invalid program: the text is not the JSON form of a program"
  | .compile error => s!"Compile error: {error.message}"
  | .link error => s!"Link error: {error.message}"
  | .runtime error => s!"Runtime error: {error.message}"

/-- A name by which programs tell the causes apart, with the stage in front. -/
def name : Failure → String
  | .unreadable _ => "Io"
  | .invalid => "Json"
  | .compile error => "Compile." ++ error.defect.name
  | .link error => "Link." ++ error.name
  | .runtime error => "Runtime." ++ error.fault.name

end Failure

/-- What a stack, a heap or a machine may end an action with. -/
abbrev Trap := Stop Fault

end Bytecode
