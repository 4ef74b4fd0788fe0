import Bytecode.Code.Instruction
import Bytecode.Double.Text
import Bytecode.Executable.Basic

/-!
# Listings

`Executable.listing` shows an executable to a person: its constants, globals and classes, then
the instructions of the top level and of each function, one a line.
-/

namespace Bytecode

/-- Fill up with a character on the left. -/
def padLeft (width : Nat) (fill : Char) (text : String) : String :=
  "".pushn fill (width - text.length) ++ text

/-- Fill up with blanks on the right. -/
def padRight (width : Nat) (text : String) : String := text.pushn ' ' (width - text.length)

/-- The text of some lines, each of them ended. -/
def unlines (lines : List String) : String := String.join (lines.map fun line => line ++ "\n")

/-- A number at the right of a column of blanks. -/
def column (width n : Nat) : String := padLeft width ' ' (toString n)

/-- A number with at least four digits. -/
def fourDigits (n : Nat) : String := padLeft 4 '0' (toString n)

namespace Constant

/-- A constant as it is listed. A string is put between quotes as it is. -/
def listed : Constant → String
  | .int value => toString value.toInt
  | .double value => Layout.listing.render value
  | .string value => "\"" ++ value ++ "\""

end Constant

namespace Instruction

/-- An operand as it is listed, the one of a two-byte integer with its sign. -/
def listedOperand (op : Op) (operand : UInt16) : String :=
  match op with
  | .pushInt2Byte => toString operand.toInt16.toInt
  | _ => toString operand.toNat

/-- What an operand refers to. -/
def note? (exe : Executable) (op : Op) (operand : UInt16) : Option String :=
  let index := operand.toNat
  match op with
  | .pushInt | .pushDouble | .pushString =>
    some ((exe.constants[index]?.map Constant.listed).getD "???")
  | .pushStatic _ | .popStatic _ => exe.globals[index]?.map (·.name)
  | .pushFunction => exe.functions[index]?.map Function.qualifiedName
  | .new | .downCast | .instanceOf => some (exe.className operand)
  | _ => none

/-- An instruction with its operand and what the operand refers to. -/
def listed (exe : Executable) (i : Instruction) : String :=
  match i.operand with
  | none => i.op.mnemonic
  | some operand =>
    let shown := padRight 24 i.op.mnemonic ++ " " ++ padLeft 5 ' ' (listedOperand i.op operand)
    match note? exe i.op operand with
    | none => shown
    | some note => shown ++ s!" ({note})"

end Instruction

namespace Executable

/-- A line of the listing for each instruction. A source line is shown only where it changes,
and an unknown one always, as zero. -/
def listInstructions (exe : Executable) (runs : Array LineRun) :
    Option UInt32 → List Instruction → List String
  | _, [] => []
  | previous, i :: rest =>
    let line := lineAt runs i.pc
    let lineText :=
      if line.isSome && line == previous then "   |"
      else column 4 (line.getD 0).toNat
    s!"{fourDigits i.pc} {lineText} {i.listed exe}" ::
      exe.listInstructions runs line rest

/-- The lines for a code block, up to the first place that cannot be decoded. -/
def listBlock (exe : Executable) (block : CodeBlock) : List String :=
  let decoded := decode block.code
  exe.listInstructions block.lines none decoded.instructions ++
    match decoded.error with
    | none => []
    | some e => [s!"  !! {e.message}"]

def listClass (exe : Executable) (c : Class) : List String :=
  let heading := match c.superClass with
    | none => c.name
    | some parent => s!"{c.name} < {exe.className parent}"
  s!"== class {heading} ==" ::
    (c.fields.mapIdx fun i field =>
      s!"  field  {column 3 i} {field.name}: {field.ty.text}") ++
    (c.methods.mapIdx fun i method =>
      s!"  method {column 3 i} {method.name} -> #{method.function.toNat}")

def listFunction (exe : Executable) (index : Nat) (f : Function) : List String :=
  let heading := s!"#{index} {f.qualifiedName}"
  "" :: s!"== {heading} (params={f.params.length}, locals={f.locals.length}) ==" ::
    match f.code with
    | none => ["  <native>"]
    | some block => exe.listBlock block

/-- The listing, line by line. -/
def listingLines (exe : Executable) : List String :=
  s!"== constants ({exe.constants.size}) ==" ::
    (exe.constants.toList.mapIdx fun i c => s!"{column 5 i} {c.listed}") ++
    s!"== globals ({exe.globals.size}) ==" ::
    (exe.globals.toList.mapIdx fun i v =>
      s!"{column 5 i} {v.name}: {v.ty.text}") ++
    exe.classes.toList.flatMap exe.listClass ++
    "== <top level> ==" :: exe.listBlock exe.topLevel ++
    (exe.functions.toList.mapIdx exe.listFunction).flatten

/-- The listing as a text. -/
def listing (exe : Executable) : String := unlines exe.listingLines

/-- The lines of all instructions of a code block can be looked up. -/
def linesFit (block : CodeBlock) : Bool :=
  (decode block.code).instructions.all fun i => lookupFits block.lines.toList i.pc

/-- The listing of an executable, if the lines of all its instructions can be looked up. -/
def tryListing (exe : Executable) : Option String :=
  if linesFit exe.topLevel ∧ exe.functions.all fun f => (f.code.map linesFit).getD true then
    some exe.listing
  else none

end Executable

end Bytecode
