/-!
# Syntax trees

Programs are lists of statements; statements hold expressions.  Every node carries the line it is
reported on.  Trees come from source text, where lines count from 1, but may also be built by hand
with any lines.

* `Literal`, `UnaryOp`, `BinaryOp` — constants and operators.
* `Expr` — expressions; an element of an array is read through the name of a variable.
* `Binding` — `name = value`, shared by declarations, assignments and the clauses of a loop.
* `Stmt` — statements; a block carries its own line beside its statements.
-/

set_option autoImplicit false
namespace Scriptlet

/-- Constants. -/
inductive Literal where
  | null
  | bool (b : Bool)
  | number (x : Float)
  | string (s : String)
  | char (c : Char)

/-- Operators before one operand. -/
inductive UnaryOp where
  | neg | not
  deriving DecidableEq, Repr

/-- Operators between two operands. -/
inductive BinaryOp where
  | add | sub | mul | div
  | eq | ne | gt | ge | lt | le
  | and | or
  deriving DecidableEq, Repr

/-- The name of an operator in trees. -/
def UnaryOp.name : UnaryOp → String
  | neg => "neg" | not => "not"

/-- The name of an operator in trees. -/
def BinaryOp.name : BinaryOp → String
  | add => "add" | sub => "sub" | mul => "mul" | div => "div"
  | eq => "eq" | ne => "ne" | gt => "gt" | ge => "ge" | lt => "lt" | le => "le"
  | and => "and" | or => "or"

/-- All operators before one operand. -/
def UnaryOp.all : List UnaryOp := [neg, not]

/-- All operators between two operands. -/
def BinaryOp.all : List BinaryOp := [add, sub, mul, div, eq, ne, gt, ge, lt, le, and, or]

theorem UnaryOp.mem_all (op : UnaryOp) : op ∈ UnaryOp.all := by
  cases op <;> simp [UnaryOp.all]

theorem BinaryOp.mem_all (op : BinaryOp) : op ∈ BinaryOp.all := by
  cases op <;> simp [BinaryOp.all]

/-- Expressions. -/
inductive Expr where
  | literal (value : Literal) (line : Int)
  | variable (name : String) (line : Int)
  | unary (op : UnaryOp) (operand : Expr) (line : Int)
  | binary (left : Expr) (op : BinaryOp) (right : Expr) (line : Int)
  | array (elements : List Expr) (line : Int)
  | element (name : String) (index : Expr) (line : Int)

/-- A name and the value it is given, on the line of the name. -/
structure Binding where
  name : String
  value : Expr
  line : Int

/-- The first clause of a `for` loop. -/
inductive ForInit where
  | declare (b : Binding)
  | assign (b : Binding)

/-- The three clauses of a `for` loop, each of which may be missing. -/
structure ForClauses where
  init : Option ForInit
  condition : Option Expr
  increment : Option Binding

/-- Statements. -/
inductive Stmt where
  | declare (b : Binding)
  | assign (b : Binding)
  | assignElement (name : String) (index value : Expr) (line : Int)
  | print (value : Expr) (line : Int)
  | block (body : List Stmt) (line : Int)
  | ifThen (condition : Expr) (body : List Stmt) (bodyLine line : Int)
  | ifElse (condition : Expr) (body : List Stmt) (bodyLine : Int)
      (otherwise : List Stmt) (otherwiseLine line : Int)
  | whileLoop (condition : Expr) (body : List Stmt) (bodyLine line : Int)
  | forLoop (clauses : ForClauses) (body : List Stmt) (bodyLine line : Int)

/-- The first clause of a `for` loop as a statement. -/
def ForInit.toStmt : ForInit → Stmt
  | .declare b => .declare b
  | .assign b => .assign b

end Scriptlet
