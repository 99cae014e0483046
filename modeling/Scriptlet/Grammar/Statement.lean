import Scriptlet.Grammar.Expression
import Scriptlet.Limits

/-!
# The grammar of statements

The first token of a statement tells its form; what begins with no keyword and no brace is an
assignment.  Forms with a body read it between braces, statement by statement.

The nesting budget is shared with expressions.  A statement takes two units of it, its form two, and
the body of a conditional or of a loop another two, which makes four for a block inside a block and
six for a conditional or a loop inside another.  A declaration in the first clause of a `for` loop
is a form of its own and takes two units, and the assignment in the third clause takes one.

* `Form` — the forms of statements, and `Form.of`, the form that a token begins.
* one definition per form, given how to read the expressions and the statements inside it.
* `statement budget form` — the statements of a form.
* `program` — the statements up to the end of the text.
-/

set_option autoImplicit false
namespace Scriptlet.Grammar

/-- The forms of statements; `any` is decided by the first token. -/
inductive Form where
  | any | block | declaration | assignment | conditional | whileLoop | forLoop | output
  deriving DecidableEq, Repr

/-- The form of the statement that begins with a kind of token. -/
def Form.of : TokenKind → Form
  | .kwLet => declaration
  | .kwIf => conditional
  | .kwWhile => whileLoop
  | .kwFor => forLoop
  | .kwPrint => output
  | .leftBrace => block
  | _ => assignment

/-! ## Blocks -/

/-- The statements up to a closing brace or the end of the text; the last read comes first. -/
def statementsUntilBrace (statement : Parser Stmt) : Nat → List Stmt → Parser (List Stmt)
  | 0, read => return read
  | rounds + 1, read => do
    if (← check .rightBrace) || (← atEnd) then
      return read
    else
      statementsUntilBrace statement rounds ((← statement) :: read)

/-- The statements between braces, and the line of the opening one. -/
def braces (statement : Parser Stmt) : Parser (List Stmt × Int) := do
  let brace ← eatMark .leftBrace .here
  let read ← statementsUntilBrace statement (← tokensAhead) []
  let _ ← eatMark .rightBrace .here
  return (read.reverse, brace.line)

/-! ## The forms -/

/-- A declaration, `let name = value;`. -/
def declaration (expr : Parser Expr) : Parser Binding := do
  let _ ← eatMark .kwLet .here
  let name ← eatName (.after "'let'")
  let _ ← eatMark .equal (.after "variable name")
  let value ← expr
  let _ ← eatMark .semicolon (.after "variable declaration")
  return ⟨name.lexeme, value, name.line⟩

/-- The rest of an assignment `name = value;`, after the name. -/
def assignmentTail (expr : Parser Expr) (name : Token) : Parser Binding := do
  let _ ← eatMark .equal (.after "variable name")
  let value ← expr
  let _ ← eatMark .semicolon (.after "assignment")
  return ⟨name.lexeme, value, name.line⟩

/-- The rest of an assignment `name[index] = value;`, after the opening bracket. -/
def elementAssignmentTail (expr : Parser Expr) (name : Token) : Parser Stmt := do
  let index ← expr
  let _ ← eatMark .rightBracket (.after "array index")
  let _ ← eatMark .equal (.after "array element")
  let value ← expr
  let _ ← eatMark .semicolon (.after "array assignment")
  return .assignElement name.lexeme index value name.line

/-- An assignment to a variable or to an element of an array. -/
def assignment (expr : Parser Expr) : Parser Stmt := do
  let name ← eatName .here
  match ← accept? [.leftBracket] with
  | some _ => elementAssignmentTail expr name
  | none => return .assign (← assignmentTail expr name)

/-- An output statement, `print(value);`. -/
def output (expr : Parser Expr) : Parser Stmt := do
  let keyword ← eatMark .kwPrint .here
  let _ ← eatMark .leftParen (.after "'print'")
  let value ← expr
  let _ ← eatMark .rightParen (.after "print expression")
  let _ ← eatMark .semicolon (.after "print statement")
  return .print value keyword.line

/-- A conditional, `if (condition) body`, perhaps with `else` and another body. -/
def conditional (expr : Parser Expr) (body : Parser (List Stmt × Int)) : Parser Stmt := do
  let keyword ← eatMark .kwIf .here
  let _ ← eatMark .leftParen (.after "'if'")
  let condition ← expr
  let _ ← eatMark .rightParen (.after "if condition")
  let (taken, takenLine) ← body
  match ← accept? [.kwElse] with
  | none => return .ifThen condition taken takenLine keyword.line
  | some _ =>
    let (otherwise, otherwiseLine) ← body
    return .ifElse condition taken takenLine otherwise otherwiseLine keyword.line

/-- A loop, `while (condition) body`. -/
def whileLoop (expr : Parser Expr) (body : Parser (List Stmt × Int)) : Parser Stmt := do
  let keyword ← eatMark .kwWhile .here
  let _ ← eatMark .leftParen (.after "'while'")
  let condition ← expr
  let _ ← eatMark .rightParen (.after "while condition")
  let (statements, bodyLine) ← body
  return .whileLoop condition statements bodyLine keyword.line

/-- An assignment without a semicolon, `name = value`. -/
def bareAssignment (expr : Parser Expr) : Parser Binding := do
  let name ← eatName (.within "for increment")
  let _ ← eatMark .equal (.within "for increment")
  return ⟨name.lexeme, ← expr, name.line⟩

/-- The first clause of a `for` loop with the semicolon that ends it, given how to read a
declaration there. -/
def forInit (declared : Parser Binding) (expr : Parser Expr) : Parser (Option ForInit) := do
  if ← check .kwLet then
    return some (.declare (← declared))
  else if ← check .semicolon then
    let _ ← eatMark .semicolon .here
    return none
  else
    let name ← eatName (.within "for initializer")
    return some (.assign (← assignmentTail expr name))

/-- The second clause of a `for` loop with the semicolon that ends it. -/
def forCondition (expr : Parser Expr) : Parser (Option Expr) := do
  let condition ← if ← check .semicolon then pure none else some <$> expr
  let _ ← eatMark .semicolon (.after "for condition")
  return condition

/-- The third clause of a `for` loop, given how to read an assignment there. -/
def forIncrement (assigned : Parser Binding) : Parser (Option Binding) := do
  if ← check .rightParen then
    return none
  else
    return some (← assigned)

/-- A loop, `for (init; condition; increment) body`. -/
def forLoop (declared assigned : Parser Binding) (expr : Parser Expr)
    (body : Parser (List Stmt × Int)) : Parser Stmt := do
  let keyword ← eatMark .kwFor .here
  let _ ← eatMark .leftParen (.after "'for'")
  let init ← forInit declared expr
  let condition ← forCondition expr
  let increment ← forIncrement assigned
  let _ ← eatMark .rightParen (.after "for clauses")
  let (statements, bodyLine) ← body
  return .forLoop ⟨init, condition, increment⟩ statements bodyLine keyword.line

/-! ## All forms -/

/-- A declaration inside a statement, within a nesting budget. -/
def innerDeclaration : Nat → Parser Binding
  | budget + 2 => declaration (expression budget .whole)
  | _ => stop .tooDeep

/-- An assignment without a semicolon inside a statement, within a nesting budget. -/
def innerAssignment : Nat → Parser Binding
  | budget + 1 => bareAssignment (expression budget .whole)
  | _ => stop .tooDeep

/-- A statement of a form, within a nesting budget.  The body of a conditional or of a loop takes
two units more than what stands before it. -/
def statement : Nat → Form → Parser Stmt
  | budget + 2, form =>
    let expr := expression budget .whole
    let body := match budget with
      | rest + 2 => braces (statement rest .any)
      | _ => stop .tooDeep
    match form with
    | .any => do
      let token ← peek
      statement budget (Form.of token.kind)
    | .block => do
      let (body, line) ← braces (statement budget .any)
      return .block body line
    | .declaration => .declare <$> declaration expr
    | .assignment => assignment expr
    | .output => output expr
    | .conditional => conditional expr body
    | .whileLoop => whileLoop expr body
    | .forLoop => forLoop (innerDeclaration budget) (innerAssignment budget) expr body
  | _, _ => stop .tooDeep

/-! ## Programs -/

/-- The statements up to the end of the text; the last read comes first. -/
def statementsUntilEnd (statement : Parser Stmt) : Nat → List Stmt → Parser (List Stmt)
  | 0, read => return read
  | rounds + 1, read => do
    if ← atEnd then
      return read
    else
      statementsUntilEnd statement rounds ((← statement) :: read)

variable [Limits]

/-- All statements from the cursor to the end of the text. -/
def program : Parser (List Stmt) := do
  return (← statementsUntilEnd (statement Limits.nesting .any) (← tokensAhead) []).reverse

/-- The program of a token stream. -/
def parse (tokens : TokenStream) : Except Error (List Stmt) :=
  match program.run (Cursor.start tokens) with
  | .ok statements _ => .ok statements
  | .error e _ => .error e

end Scriptlet.Grammar
