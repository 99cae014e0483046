import Mathlib
import Scriptlet.Build
import Scriptlet.Proofs.Relabeling

/-!
# Trees without their lines

Every token and every node of a tree carries a line, for the sake of messages.  Here the lines are
taken away, each set to 0, and what later steps do with a tree is shown not to depend on them: the
code is the same, and the violations are the same but for their own lines.  Taking lines away is a
relabeling, so this is a case of what holds for relabelings.

## What is here

* `noLines` — the relabeling that takes lines away.
* `Token.unlined`, `Expr.unlined`, `Stmt.unlined` — the same on no line in particular.
* `assemble_unlined` — **lines leave no trace in the code**.
* `violations_of_unlined` — the check of declarations finds the same violations in the same order.
-/

set_option autoImplicit false
namespace Scriptlet

/-! ## Taking lines away -/

/-- The same token on no line in particular. -/
def Token.unlined (t : Token) : Token :=
  { t with line := 0 }

theorem Token.unlined_eq_iff {t u : Token} :
    t.unlined = u.unlined ↔ t.kind = u.kind ∧ t.lexeme = u.lexeme := by
  simp [Token.unlined]

/-- Tokens are the same but for their lines if they have the same kinds and lexemes. -/
theorem Token.map_unlined_eq {ts us : List Token}
    (h : ts.map (fun t => (t.kind, t.lexeme)) = us.map fun t => (t.kind, t.lexeme)) :
    ts.map Token.unlined = us.map Token.unlined := by
  have hunlined := congrArg (List.map fun x : TokenKind × String => Token.mk x.1 x.2 0) h
  rw [List.map_map, List.map_map] at hunlined
  exact hunlined

/-- Every name as it is and every line 0. -/
def noLines : Relabeling :=
  { line := fun _ => 0 }

@[simp] theorem noLines_name (name : String) : noLines.name name = name := rfl

@[simp] theorem noLines_line (line : Int) : noLines.line line = 0 := rfl

/-- The same expression on no line in particular. -/
abbrev Expr.unlined : Expr → Expr :=
  Expr.relabel noLines

/-- The same binding on no line in particular. -/
abbrev Binding.unlined : Binding → Binding :=
  Binding.relabel noLines

/-- The same first clause on no line in particular. -/
abbrev ForInit.unlined : ForInit → ForInit :=
  ForInit.relabel noLines

/-- The same statement on no line in particular. -/
abbrev Stmt.unlined : Stmt → Stmt :=
  Stmt.relabel noLines

/-- The same violation on no line in particular. -/
abbrev Violation.unlined : Violation → Violation :=
  Violation.relabel noLines

/-! ## Code and declarations -/

/-- **Lines leave no trace in the code.** -/
theorem assemble_unlined (program : List Stmt) :
    (assemble (program.map Stmt.unlined)).code = (assemble program).code := by
  have hrename : Instruction.rename noLines.name = id := by
    funext i
    simp [Instruction.rename, noLines]
  rw [assemble_relabel, hrename, Array.map_id]

/-- Programs that differ in lines only have the same violations but for their lines. -/
theorem violations_of_unlined {p q : List Stmt} (h : p.map Stmt.unlined = q.map Stmt.unlined) :
    (Scope.check {} p).violations.toList.map Violation.unlined =
      (Scope.check {} q).violations.toList.map Violation.unlined := by
  have hp := Scope.check_relabel (r := noLines) Function.injective_id {} p
  have hq := Scope.check_relabel (r := noLines) Function.injective_id {} q
  rw [h, hq] at hp
  have hviolations := congrArg (fun s => s.violations.toList) hp
  simpa [Scope.relabel] using hviolations.symm

end Scriptlet
