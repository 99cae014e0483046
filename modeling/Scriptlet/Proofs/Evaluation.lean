import Scriptlet.Machine.Operation
import Scriptlet.Machine.State

/-!
# Evaluating trees

What a program means, said on its tree, with no code, stack or counter.  An evaluation works on the
variables, the heap, the lines printed so far and the text written so far, and uses the operations
on values that the machine uses.

* Operands are evaluated from left to right; `and` and `or` evaluate both of theirs.
* An element is read by looking up the variable, evaluating the index and then reading; it is
  written by evaluating the value, then the index, and then looking up the variable.
* An array literal evaluates its elements in order and then makes a new array; arrays are held by
  reference.
* A `for` loop evaluates its first clause once; a missing condition is true.

Loops may have no end, so a loop is given a number of rounds that it may start, and an evaluation
that needs more stops with `outOfRounds`.  The number is the same for all loops of a program.  An
evaluation *ends* if it has another outcome for some number of rounds.

* `Expr.eval`, `Stmt.eval` — the evaluation of expressions and statements.
* `evaluate rounds program` — the outcome for a program, from nothing.
-/

set_option autoImplicit false
namespace Scriptlet

open Machine

variable [Limits]

/-! ## Evaluations -/

/-- What a program reads and changes: its variables, the heap, the printed lines and the text
written. -/
structure World where
  store : Store := []
  heap : Heap := {}
  output : Array String := #[]
  written : String := ""

/-- Why an evaluation stops before its end. -/
inductive Stop where
  | fault (f : Fault)
  | outOfRounds

/-- Evaluations. -/
abbrev Evaluation := EStateM Stop World

namespace Evaluation

/-- The result of an operation, or its fault. -/
def ofExcept {α : Type} : Except Fault α → Evaluation α
  | .ok a => return a
  | .error f => throw (.fault f)

/-- The value of a variable, or the fault that it is undefined. -/
def valueOf (store : Store) (name : String) : Except Fault Value :=
  match store.get? (some name) with
  | some v => .ok v
  | none => .error (.undefined (some name))

/-- Looks up a variable. -/
def lookUp (name : String) : Evaluation Value := do
  ofExcept (valueOf (← get).store name)

/-- Gives a variable a value. -/
def assign (name : String) (v : Value) : Evaluation Unit :=
  modify fun w => { w with store := w.store.put (some name) v }

/-- A new array. -/
def allocate (vs : List Value) : Evaluation Value :=
  modifyGet fun w => (.array w.heap.size, { w with heap := w.heap.alloc vs })

/-- Writes an element of the array that a variable refers to. -/
def assignElement (name : String) (index v : Value) : Evaluation Unit := do
  let w ← get
  let (address, i) ← ofExcept (slotOf w.heap (some name) (w.store.get? (some name)) index)
  set { w with heap := w.heap.write address i v }

/-- Prints a value on a line of its own, and writes the line with a line feed after it. -/
def print (v : Value) : Evaluation Unit := do
  let line ← ofExcept (shown (← get).heap v)
  modify fun w => { w with
    output := w.output.push line
    written := w.written ++ line ++ "\n" }

/-- Evaluates the body as long as the condition holds, for a number of rounds at most. -/
def repeatWhile (condition : Evaluation Value) (body : Evaluation Unit) : Nat → Evaluation Unit
  | 0 => throw .outOfRounds
  | rounds + 1 => do
    let v ← condition
    if v.truthy then
      body
      repeatWhile condition body rounds
    else return ()

end Evaluation

open Evaluation

/-! ## Expressions -/

mutual

/-- The value of an expression. -/
def Expr.eval : Expr → Evaluation Value
  | .literal value _ => return .ofLiteral value
  | .variable name _ => lookUp name
  | .unary op operand _ => do
    let v ← operand.eval
    ofExcept (applyUnary op v)
  | .binary left op right _ => do
    let a ← left.eval
    let b ← right.eval
    ofExcept (applyBinary (← get).heap op a b)
  | .array elements _ => do
    let vs ← Expr.evalAll elements
    allocate vs
  | .element name index _ => do
    let array ← lookUp name
    let i ← index.eval
    ofExcept (loadElement (← get).heap array i)

/-- The values of some expressions, in order. -/
def Expr.evalAll : List Expr → Evaluation (List Value)
  | [] => return []
  | e :: es => do
    let v ← e.eval
    let vs ← Expr.evalAll es
    return v :: vs

end

/-! ## Statements -/

/-- Gives the variable its value. -/
def Binding.eval (b : Binding) : Evaluation Unit := do
  let v ← b.value.eval
  assign b.name v

/-- The first clause of a `for` loop. -/
def ForInit.eval : ForInit → Evaluation Unit
  | .declare b => b.eval
  | .assign b => b.eval

/-- A part that may be missing. -/
def evalOptional {α : Type} (eval : α → Evaluation Unit) : Option α → Evaluation Unit
  | none => return ()
  | some a => eval a

/-- The condition of a `for` loop. -/
def ForClauses.evalCondition (c : ForClauses) : Evaluation Value :=
  match c.condition with
  | some e => e.eval
  | none => return .bool true

mutual

/-- Evaluates a statement. -/
def Stmt.eval (rounds : Nat) : Stmt → Evaluation Unit
  | .declare b => b.eval
  | .assign b => b.eval
  | .assignElement name index value _ => do
    let v ← value.eval
    let i ← index.eval
    Evaluation.assignElement name i v
  | .print value _ => do
    let v ← value.eval
    Evaluation.print v
  | .block body _ => Stmt.evalAll rounds body
  | .ifThen condition body _ _ => do
    let v ← condition.eval
    if v.truthy then Stmt.evalAll rounds body else return ()
  | .ifElse condition body _ otherwise _ _ => do
    let v ← condition.eval
    if v.truthy then Stmt.evalAll rounds body else Stmt.evalAll rounds otherwise
  | .whileLoop condition body _ _ => repeatWhile condition.eval (Stmt.evalAll rounds body) rounds
  | .forLoop clauses body _ _ => do
    evalOptional ForInit.eval clauses.init
    repeatWhile clauses.evalCondition
      (do
        Stmt.evalAll rounds body
        evalOptional Binding.eval clauses.increment)
      rounds

/-- Evaluates some statements, in order. -/
def Stmt.evalAll (rounds : Nat) : List Stmt → Evaluation Unit
  | [] => return ()
  | s :: ss => do
    s.eval rounds
    Stmt.evalAll rounds ss

end

/-- The outcome of a program: the world at its end, or why it stops and the world then. -/
def evaluate (rounds : Nat) (program : List Stmt) : EStateM.Result Stop World Unit :=
  (Stmt.evalAll rounds program).run {}

end Scriptlet
