import Scriptlet.Assembly.CodeBuffer
import Scriptlet.Decimal.Format

/-!
# Assembling trees

An expression becomes straight code that leaves one value on the stack: operands first, from left to
right, then the operator.  A statement leaves the stack as it found it.  Conditionals and loops jump
forward over code that is not yet there, so they reserve the jump, assemble the body and then patch
the jump to the place after it:

* `if`       — condition, jump if false to the end, body;
* `if else`  — condition, jump if false to the other body, body, jump to the end, other body;
* `while`    — condition, jump if false to the end, body, jump to the condition;
* `for`      — first clause, then a `while` loop whose body ends with the third clause; a missing
  condition is true.

An assignment to an element computes the value before the index.  Assembling goes as deep as the
tree does, without a limit.
-/

set_option autoImplicit false
namespace Scriptlet

/-! ## Expressions -/

/-- The instruction that pushes a constant. -/
def Literal.code : Literal → Instruction
  | .null => ⟨.constNull, none⟩
  | .bool b => ⟨.constBool, some (if b then "true" else "false")⟩
  | .number x => ⟨.constNumber, some (Decimal.write x)⟩
  | .string s => ⟨.constString, some s⟩
  | .char c => ⟨.constChar, some c.toString⟩

mutual

/-- The code of an expression. -/
def Expr.code : Expr → List Instruction
  | .literal value _ => [value.code]
  | .variable name _ => [⟨.load, some name⟩]
  | .unary op operand _ => operand.code ++ [⟨.unary op, none⟩]
  | .binary left op right _ => left.code ++ right.code ++ [⟨.binary op, none⟩]
  | .array elements _ =>
    Expr.codeAll elements ++ [⟨.makeArray, some (toString elements.length)⟩]
  | .element name index _ => ⟨.load, some name⟩ :: (index.code ++ [⟨.loadElement, none⟩])

/-- The code of some expressions, one after the other. -/
def Expr.codeAll : List Expr → List Instruction
  | [] => []
  | e :: es => e.code ++ Expr.codeAll es

end

/-! ## Statements -/

/-- The code that gives a variable a value. -/
def Binding.code (b : Binding) : List Instruction :=
  b.value.code ++ [⟨.store, some b.name⟩]

/-- The code of the first clause of a `for` loop. -/
def ForInit.code : ForInit → List Instruction
  | .declare b => b.code
  | .assign b => b.code

/-- The code of the condition of a `for` loop. -/
def ForClauses.conditionCode (c : ForClauses) : List Instruction :=
  match c.condition with
  | some e => e.code
  | none => [⟨.constBool, some "true"⟩]

/-- The code of a part that may be missing. -/
def optionalCode {α : Type} (code : α → List Instruction) : Option α → List Instruction
  | none => []
  | some a => code a

/-- A loop: the condition, the body and a jump back to the condition. -/
def assembleLoop (condition : List Instruction) (body : Assembler Unit) : Assembler Unit := do
  let start ← nextIndex
  emitAll condition
  let exit ← reserve .jumpIfFalse
  body
  emit .jump (some (toString start))
  patchHere exit

mutual

/-- Appends the code of a statement. -/
def Stmt.assemble : Stmt → Assembler Unit
  | .declare b => emitAll b.code
  | .assign b => emitAll b.code
  | .assignElement name index value _ =>
    emitAll (value.code ++ index.code ++ [⟨.storeElement, some name⟩])
  | .print value _ => emitAll (value.code ++ [⟨.print, none⟩])
  | .block body _ => Stmt.assembleAll body
  | .ifThen condition body _ _ => do
    emitAll condition.code
    let skip ← reserve .jumpIfFalse
    Stmt.assembleAll body
    patchHere skip
  | .ifElse condition body _ otherwise _ _ => do
    emitAll condition.code
    let skip ← reserve .jumpIfFalse
    Stmt.assembleAll body
    let leave ← reserve .jump
    patchHere skip
    Stmt.assembleAll otherwise
    patchHere leave
  | .whileLoop condition body _ _ => assembleLoop condition.code (Stmt.assembleAll body)
  | .forLoop clauses body _ _ => do
    emitAll (optionalCode ForInit.code clauses.init)
    assembleLoop clauses.conditionCode do
      Stmt.assembleAll body
      emitAll (optionalCode Binding.code clauses.increment)

/-- Appends the code of some statements. -/
def Stmt.assembleAll : List Stmt → Assembler Unit
  | [] => return ()
  | s :: ss => do
    s.assemble
    Stmt.assembleAll ss

end

/-- Appends the code of a program, which ends with a halt. -/
def assembleProgram (program : List Stmt) : Assembler Unit := do
  Stmt.assembleAll program
  emit .halt none

/-- The buffer after an action, whether or not it was refused. -/
def Assembler.buffer {α : Type} (action : Assembler α) (b : CodeBuffer) : CodeBuffer :=
  match action.run b with
  | .ok _ b' => b'
  | .error _ b' => b'

/-- A program assembled into an empty buffer. -/
def assemble (program : List Stmt) : CodeBuffer :=
  (assembleProgram program).buffer {}

end Scriptlet
