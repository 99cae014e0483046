import Scriptlet.Decimal.Numeral
import Scriptlet.Grammar.Cursor
import Scriptlet.Syntax

/-!
# The grammar of expressions

Expressions are read by levels of precedence, from whole expressions and the loosest operator, `or`,
to the primary expressions.  A level of binary operators reads operands of the next tighter level
and folds them to the left.

What stands inside brackets is a whole expression again, so reading goes down the levels once for
each pair of brackets, and once more into the last level but one for each sign.  Going down takes
from a nesting budget: three units for a level of binary operators and two for any other, which
makes 24 for a pair of brackets and two for a sign.  When the budget does not suffice for a level,
the program is nested too deeply.

* `Level` — the levels, loosest first.
* `primary` — literals, variables, elements, groups and array literals, given how to read the
  expressions inside them.
* `expression budget level` — the expressions of a level.
-/

set_option autoImplicit false
namespace Scriptlet.Grammar

/-- The levels of precedence. -/
inductive Level where
  | whole | disjunction | conjunction | equality | comparison | sum | product | signed | primary
  deriving DecidableEq, Repr

namespace Level

/-- The next tighter level; primary expressions are the tightest. -/
def tighter : Level → Level
  | whole => disjunction
  | disjunction => conjunction
  | conjunction => equality
  | equality => comparison
  | comparison => sum
  | sum => product
  | product => signed
  | signed => primary
  | primary => primary

/-- The binary operator that a kind of token is at a level. -/
def operator? : Level → TokenKind → Option BinaryOp
  | disjunction, .kwOr => some .or
  | conjunction, .kwAnd => some .and
  | equality, .equalEqual => some .eq
  | equality, .bangEqual => some .ne
  | comparison, .greater => some .gt
  | comparison, .greaterEqual => some .ge
  | comparison, .less => some .lt
  | comparison, .lessEqual => some .le
  | sum, .plus => some .add
  | sum, .minus => some .sub
  | product, .star => some .mul
  | product, .slash => some .div
  | _, _ => none

end Level

/-- The operator that a kind of token is before an operand. -/
def signOperator? : TokenKind → Option UnaryOp
  | .minus => some .neg
  | .kwNot => some .not
  | _ => none

/-! ## Loops -/

/-- Folds `op operand` to the left onto an expression, as long as an operator follows. -/
def foldOperands (operator? : TokenKind → Option BinaryOp) (operand : Parser Expr) :
    Nat → Expr → Parser Expr
  | 0, left => return left
  | rounds + 1, left => do
    let token ← peek
    match operator? token.kind with
    | none => return left
    | some op =>
      let _ ← advance
      let right ← operand
      foldOperands operator? operand rounds (.binary left op right token.line)

/-- One operand, and all that follow it with operators between them. -/
def operands (operator? : TokenKind → Option BinaryOp) (operand : Parser Expr) : Parser Expr := do
  let left ← operand
  foldOperands operator? operand (← tokensAhead) left

/-- The further elements of an array literal, a comma before each; the last read comes first. -/
def moreElements (element : Parser Expr) : Nat → List Expr → Parser (List Expr)
  | 0, read => return read
  | rounds + 1, read => do
    match ← accept? [.comma] with
    | none => return read
    | some _ => moreElements element rounds ((← element) :: read)

/-- The elements of an array literal, after its opening bracket. -/
def elements (element : Parser Expr) : Parser (List Expr) := do
  if ← check .rightBracket then
    return []
  else
    let first ← element
    return (← moreElements element (← tokensAhead) [first]).reverse

/-! ## Primary expressions -/

/-- A lexeme without its first and last character. -/
def unquoted (lexeme : String) : List Char :=
  lexeme.toList.tail.dropLast

/-- A primary expression, given how to read the expressions inside it. -/
def primary (inner : Parser Expr) : Parser Expr := do
  let token ← peek
  match token.kind with
  | .number =>
    let _ ← advance
    return .literal (.number (Decimal.ofPositional token.lexeme.toList)) token.line
  | .string =>
    let _ ← advance
    return .literal (.string (String.ofList (unquoted token.lexeme))) token.line
  | .char =>
    let _ ← advance
    return .literal (.char ((unquoted token.lexeme).headD '\x00')) token.line
  | .identifier =>
    let _ ← advance
    match ← accept? [.leftBracket] with
    | none => return .variable token.lexeme token.line
    | some _ =>
      let index ← inner
      let _ ← eatMark .rightBracket (.after "array index")
      return .element token.lexeme index token.line
  | .leftParen =>
    let _ ← advance
    let group ← inner
    let _ ← eatMark .rightParen (.after "grouped expression")
    return group
  | .leftBracket =>
    let _ ← advance
    let es ← elements inner
    let _ ← eatMark .rightBracket (.after "array literal")
    return .array es token.line
  | _ => stop (.unmet (.wants .expression .here))

/-! ## All levels -/

/-- An expression with a sign before it, or a tighter one. -/
def withSign (signed unsigned : Parser Expr) : Parser Expr := do
  let token ← peek
  match signOperator? token.kind with
  | some op =>
    let _ ← advance
    return .unary op (← signed) token.line
  | none => unsigned

/-- An expression of a level, within a nesting budget. -/
def expression : Nat → Level → Parser Expr
  | budget + 2, .whole => expression budget .disjunction
  | budget + 2, .signed => withSign (expression budget .signed) (expression budget .primary)
  | budget + 2, .primary => primary (expression budget .whole)
  | budget + 3, level => operands level.operator? (expression budget level.tighter)
  | _, _ => stop .tooDeep

end Scriptlet.Grammar
