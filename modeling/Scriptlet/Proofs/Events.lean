import Scriptlet.Declaration

/-!
# The events of a tree

A tree is read as a sequence of *events*: each use of a name and each declaration, in the order in
which they are written down here.  The checker never sees this sequence; it walks over the tree and
takes its scope with it.  Walking over a tree is nevertheless the same as observing its events, one
after the other, and all that is proved about the checker is proved about observing events.

* `Stmt.events` — the events of a statement.  A declaration comes after the events of its value, a
  name before its index and value, and the third clause of a `for` loop before its body.
* `Scope.check_eq_foldl` — **the walk observes the events** of a program, each once and in order.
-/

set_option autoImplicit false
namespace Scriptlet

/-! ## The events of a tree -/

mutual

/-- The events of an expression, from left to right. -/
def Expr.events : Expr → List Event
  | .literal _ _ => []
  | .variable name line => [.use name line]
  | .unary _ operand _ => operand.events
  | .binary left _ right _ => left.events ++ right.events
  | .array elements _ => Expr.eventsAll elements
  | .element name index line => .use name line :: index.events

/-- The events of some expressions. -/
def Expr.eventsAll : List Expr → List Event
  | [] => []
  | e :: es => e.events ++ Expr.eventsAll es

end

/-- The events of a declaration: its value cannot see the name. -/
def Binding.declarationEvents (b : Binding) : List Event :=
  b.value.events ++ [.declare b.name b.line]

/-- The events of an assignment. -/
def Binding.assignmentEvents (b : Binding) : List Event :=
  .use b.name b.line :: b.value.events

/-- The events of the first clause of a `for` loop. -/
def ForInit.events : ForInit → List Event
  | .declare b => b.declarationEvents
  | .assign b => b.assignmentEvents

/-- The events of a part that may be missing. -/
def optionalEvents {α : Type} (events : α → List Event) : Option α → List Event
  | none => []
  | some a => events a

/-- The events of the clauses of a `for` loop. -/
def ForClauses.events (c : ForClauses) : List Event :=
  optionalEvents ForInit.events c.init ++ optionalEvents Expr.events c.condition ++
    optionalEvents Binding.assignmentEvents c.increment

mutual

/-- The events of a statement. -/
def Stmt.events : Stmt → List Event
  | .declare b => b.declarationEvents
  | .assign b => b.assignmentEvents
  | .assignElement name index value line => .use name line :: (index.events ++ value.events)
  | .print value _ => value.events
  | .block body _ => Stmt.eventsAll body
  | .ifThen condition body _ _ => condition.events ++ Stmt.eventsAll body
  | .ifElse condition body _ otherwise _ _ =>
    condition.events ++ Stmt.eventsAll body ++ Stmt.eventsAll otherwise
  | .whileLoop condition body _ _ => condition.events ++ Stmt.eventsAll body
  | .forLoop clauses body _ _ => clauses.events ++ Stmt.eventsAll body

/-- The events of some statements. -/
def Stmt.eventsAll : List Stmt → List Event
  | [] => []
  | s :: ss => s.events ++ Stmt.eventsAll ss

end

/-! ## The walk observes the events -/

namespace Scope

mutual

theorem checkExpr_eq_foldl (s : Scope) : ∀ e : Expr, s.checkExpr e = e.events.foldl observe s
  | .literal _ _ => rfl
  | .variable _ _ => rfl
  | .unary _ operand _ => s.checkExpr_eq_foldl operand
  | .binary left _ right _ => by
    rw [checkExpr, s.checkExpr_eq_foldl left, checkExpr_eq_foldl _ right, Expr.events,
      List.foldl_append]
  | .array elements _ => s.checkExprs_eq_foldl elements
  | .element name index line => checkExpr_eq_foldl (s.observe (.use name line)) index

theorem checkExprs_eq_foldl (s : Scope) :
    ∀ es : List Expr, s.checkExprs es = (Expr.eventsAll es).foldl observe s
  | [] => rfl
  | e :: es => by
    rw [checkExprs, s.checkExpr_eq_foldl e, checkExprs_eq_foldl _ es, Expr.eventsAll,
      List.foldl_append]

end

theorem checkDeclaration_eq_foldl (s : Scope) (b : Binding) :
    s.checkDeclaration b = b.declarationEvents.foldl observe s := by
  rw [checkDeclaration, checkExpr_eq_foldl, Binding.declarationEvents, List.foldl_append]
  rfl

theorem checkAssignment_eq_foldl (s : Scope) (b : Binding) :
    s.checkAssignment b = b.assignmentEvents.foldl observe s := by
  rw [checkAssignment, checkExpr_eq_foldl]
  rfl

theorem checkInit_eq_foldl (s : Scope) (i : ForInit) :
    s.checkInit i = i.events.foldl observe s := by
  cases i with
  | declare b => exact s.checkDeclaration_eq_foldl b
  | assign b => exact s.checkAssignment_eq_foldl b

/-- A part that may be missing has no events if it is. -/
theorem elim_eq_foldl {α : Type} {walk : Scope → α → Scope} {events : α → List Event}
    (h : ∀ s a, walk s a = (events a).foldl observe s) (s : Scope) (o : Option α) :
    o.elim s (walk s) = (optionalEvents events o).foldl observe s := by
  cases o with
  | none => rfl
  | some a => exact h s a

theorem checkClauses_eq_foldl (s : Scope) (c : ForClauses) :
    s.checkClauses c = c.events.foldl observe s := by
  rw [checkClauses, elim_eq_foldl checkInit_eq_foldl, elim_eq_foldl checkExpr_eq_foldl,
    elim_eq_foldl checkAssignment_eq_foldl, ForClauses.events, List.foldl_append, List.foldl_append]

mutual

theorem checkStmt_eq_foldl (s : Scope) :
    ∀ stmt : Stmt, s.checkStmt stmt = stmt.events.foldl observe s
  | .declare b => s.checkDeclaration_eq_foldl b
  | .assign b => s.checkAssignment_eq_foldl b
  | .assignElement _ index value _ => by
    rw [checkStmt, checkExpr_eq_foldl _ index, checkExpr_eq_foldl _ value, Stmt.events,
      List.foldl_cons, List.foldl_append]
  | .print value _ => s.checkExpr_eq_foldl value
  | .block body _ => s.check_eq_foldl body
  | .ifThen condition body _ _ => by
    rw [checkStmt, checkExpr_eq_foldl, check_eq_foldl _ body, Stmt.events, List.foldl_append]
  | .ifElse condition body _ otherwise _ _ => by
    rw [checkStmt, checkExpr_eq_foldl, check_eq_foldl _ body, check_eq_foldl _ otherwise,
      Stmt.events, List.foldl_append, List.foldl_append]
  | .whileLoop condition body _ _ => by
    rw [checkStmt, checkExpr_eq_foldl, check_eq_foldl _ body, Stmt.events, List.foldl_append]
  | .forLoop clauses body _ _ => by
    rw [checkStmt, checkClauses_eq_foldl, check_eq_foldl _ body, Stmt.events, List.foldl_append]

/-- **Checking a program is observing its events**, each once and in order. -/
theorem check_eq_foldl (s : Scope) :
    ∀ program : List Stmt, s.check program = (Stmt.eventsAll program).foldl observe s
  | [] => rfl
  | stmt :: rest => by
    rw [check, s.checkStmt_eq_foldl stmt, check_eq_foldl _ rest, Stmt.eventsAll, List.foldl_append]

end

end Scope

end Scriptlet
