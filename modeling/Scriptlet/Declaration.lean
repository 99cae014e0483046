import Scriptlet.Syntax

/-!
# Declare before use

The checker walks over the tree of a program, and meets uses and declarations of names on its way.
There is one scope for the whole program.  A use that no declaration precedes is a violation, and so
is a declaration that another one of the same name precedes; violations are collected, never raised
one by one.  The walk goes as deep as the tree does, without a limit.

* `Scope.observe` — what one use or declaration does to the names declared and the violations found.
* `Scope.checkExpr`, `Scope.checkStmt` — the walk.  A declaration is met after its value, a name
  before its index and value, and the third clause of a `for` loop before its body.
* `Scope.check` — the scope after some further statements.
* `Scope.verdict` — the judgement on all that was found.
-/

set_option autoImplicit false
namespace Scriptlet

/-- A use or a declaration of a name, on a line. -/
inductive Event where
  | use (name : String) (line : Int)
  | declare (name : String) (line : Int)
  deriving DecidableEq, Repr

/-! ## Violations -/

/-- A breach of the rule. -/
inductive Violation where
  | usedBeforeDeclaration (name : String) (line : Int)
  | alreadyDeclared (name : String) (line : Int)
  deriving DecidableEq, Repr

/-- The wording of a violation. -/
def Violation.message : Violation → String
  | .usedBeforeDeclaration name line =>
    "Variable '" ++ name ++ "' used before declaration (line " ++ toString line ++ ")"
  | .alreadyDeclared name line =>
    "Variable '" ++ name ++ "' already declared (line " ++ toString line ++ ")"

/-- The names declared so far and the violations found so far, in order. -/
structure Scope where
  declared : List String := []
  violations : Array Violation := #[]
  deriving Repr

namespace Scope

/-- One event. -/
def observe (s : Scope) : Event → Scope
  | .use name line =>
    if s.declared.contains name then s
    else { s with violations := s.violations.push (.usedBeforeDeclaration name line) }
  | .declare name line =>
    if s.declared.contains name then
      { s with violations := s.violations.push (.alreadyDeclared name line) }
    else { s with declared := s.declared ++ [name] }

/-! ## The walk -/

mutual

/-- The scope after an expression. -/
def checkExpr (s : Scope) : Expr → Scope
  | .literal _ _ => s
  | .variable name line => s.observe (.use name line)
  | .unary _ operand _ => s.checkExpr operand
  | .binary left _ right _ => (s.checkExpr left).checkExpr right
  | .array elements _ => s.checkExprs elements
  | .element name index line => (s.observe (.use name line)).checkExpr index

/-- The scope after some expressions, from left to right. -/
def checkExprs (s : Scope) : List Expr → Scope
  | [] => s
  | e :: es => (s.checkExpr e).checkExprs es

end

/-- The scope after a declaration: its value cannot see the name. -/
def checkDeclaration (s : Scope) (b : Binding) : Scope :=
  (s.checkExpr b.value).observe (.declare b.name b.line)

/-- The scope after an assignment. -/
def checkAssignment (s : Scope) (b : Binding) : Scope :=
  (s.observe (.use b.name b.line)).checkExpr b.value

/-- The scope after the first clause of a `for` loop. -/
def checkInit (s : Scope) : ForInit → Scope
  | .declare b => s.checkDeclaration b
  | .assign b => s.checkAssignment b

/-- The scope after the clauses of a `for` loop; a missing one is passed over. -/
def checkClauses (s : Scope) (c : ForClauses) : Scope :=
  let s := c.init.elim s s.checkInit
  let s := c.condition.elim s s.checkExpr
  c.increment.elim s s.checkAssignment

mutual

/-- The scope after a statement.  Both branches of a conditional are walked over. -/
def checkStmt (s : Scope) : Stmt → Scope
  | .declare b => s.checkDeclaration b
  | .assign b => s.checkAssignment b
  | .assignElement name index value line =>
    ((s.observe (.use name line)).checkExpr index).checkExpr value
  | .print value _ => s.checkExpr value
  | .block body _ => s.check body
  | .ifThen condition body _ _ => (s.checkExpr condition).check body
  | .ifElse condition body _ otherwise _ _ => ((s.checkExpr condition).check body).check otherwise
  | .whileLoop condition body _ _ => (s.checkExpr condition).check body
  | .forLoop clauses body _ _ => (s.checkClauses clauses).check body

/-- The scope after some further statements. -/
def check (s : Scope) : List Stmt → Scope
  | [] => s
  | stmt :: rest => (s.checkStmt stmt).check rest

end

/-- The judgement on what was found: nothing to say, or all the violations. -/
def verdict (s : Scope) : Except (List Violation) Unit :=
  if s.violations.isEmpty then .ok () else .error s.violations.toList

end Scope

/-- The wording of all violations together. -/
def violationsMessage (vs : List Violation) : String :=
  vs.foldl (fun text v => text ++ "\n  - " ++ v.message) "Semantic errors:"

end Scriptlet
