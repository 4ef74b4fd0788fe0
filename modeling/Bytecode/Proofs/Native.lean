import Mathlib
import Bytecode.Native
import Bytecode.Proofs.Action

/-!
# What the built-in native functions do

Each of them takes its argument, if it has one, and ends with a value or a trap; what it changes is
at most the output. Their faults are their own, `undecoding_of_mem_defaults`.
-/

namespace Bytecode

/-- Looking up the text of a value for output crashes where a handle has no object. -/
theorem Host.textOrNull_eq (host : Host) (v : Value) :
  host.textOrNull v = match v.handle? with
    | none => .ok "null"
    | some handle => match host.heap.get? handle with
      | none => .error .crash
      | some o => .ok (o.text?.getD "null")
  := by
  unfold Host.textOrNull Host.text?
  cases v.handle? with
  | none => rfl
  | some handle =>
    dsimp only
    cases host.heap.get? handle with
    | none => rfl
    | some o => rfl

namespace Native

variable (args : List Value) (host : Host)

theorem textArgument_eq (i : Nat) :
  textArgument args i host = match args[i]? with
    | none => .error .crash host
    | some v => match host.textOrNull v with
      | .ok text => .ok text host
      | .error trap => .error trap host
  := by
  unfold textArgument argument
  cases args[i]? with
  | none => rfl
  | some v =>
    change ((match host.textOrNull v with
      | .ok text => (pure text : EStateM Trap Host String)
      | .error trap => throw trap) host) = _
    dsimp only
    cases host.textOrNull v with
    | ok text => rfl
    | error trap => rfl

/-- What a procedure does that writes its argument. -/
def written (f : String → String) (args : List Value) (host : Host) :
    EStateM.Result Trap Host Value :=
  match args with
  | [] => .error .crash host
  | v :: _ => match host.textOrNull v with
    | .ok text => .ok .zero (host.write (f text))
    | .error trap => .error trap host

theorem writes_eq (f : String → String) :
  (do
      let text ← textArgument args 0
      modify (Host.write (f text))
      return Value.zero : EStateM Trap Host Value) host = written f args host
  := by
  have found := textArgument_eq args host 0
  unfold written
  cases args with
  | nil =>
    rw [bind_of_error found]
  | cons v rest =>
    rw [List.getElem?_cons_zero] at found
    dsimp only at found ⊢
    cases looked : host.textOrNull v with
    | ok text =>
      rw [looked] at found
      rw [bind_of_ok found]
      rfl
    | error trap =>
      rw [looked] at found
      rw [bind_of_error found]

theorem print_run_eq :
  print.run args host = written id args host
  := writes_eq args host id

theorem println_run_eq :
  println.run args host = written (· ++ "\n") args host
  := writes_eq args host (· ++ "\n")

theorem sqrt_run_eq :
  sqrt.run args host = match args with
    | [] => .error .crash host
    | v :: _ =>
      if v.toDouble.lt .zero then
        .error (.error (.native "sqrt" s!"negative argument {Layout.plain.render v.toDouble}")) host
      else .ok (.ofDouble v.toDouble.sqrt) host
  := by
  cases args with
  | nil => rfl
  | cons v rest =>
    dsimp only
    by_cases negative : v.toDouble.lt .zero
    · rw [if_pos negative]
      simp [sqrt, argument, negative, fault]
      rfl
    · rw [if_neg negative]
      simp [sqrt, argument, negative]
      rfl

/-- The native function raises no fault on behalf of the code that calls it. -/
def Undecoding (n : Native) : Prop :=
  ∀ args host e host', n.run args host ≠ .error (.error (.decode e)) host'

end Native

end Bytecode
