import Scriptlet.Token

/-!
# What the grammar expects

Reading stops at the first token that cannot continue the program, and the error says what was
expected there instead: an expression, the name of a variable or a mark, perhaps with the place it
was expected at.  Nesting beyond the limit of the grammar is the one other fault.
-/

set_option autoImplicit false
namespace Scriptlet.Grammar

/-- How a mark or a keyword is spelled. -/
def spelling : TokenKind → String
  | .kwLet => "let" | .kwIf => "if" | .kwElse => "else" | .kwWhile => "while" | .kwFor => "for"
  | .kwPrint => "print" | .kwAnd => "and" | .kwOr => "or" | .kwNot => "not"
  | .plus => "+" | .minus => "-" | .star => "*" | .slash => "/"
  | .equal => "=" | .equalEqual => "==" | .bangEqual => "!="
  | .greater => ">" | .greaterEqual => ">=" | .less => "<" | .lessEqual => "<="
  | .leftParen => "(" | .rightParen => ")" | .leftBrace => "\x7b" | .rightBrace => "\x7d"
  | .leftBracket => "[" | .rightBracket => "]" | .semicolon => ";" | .comma => ","
  | .identifier | .number | .string | .char | .endOfText => ""

/-- What is wanted. -/
inductive Wanted where
  | expression
  | variableName
  | mark (kind : TokenKind)
  deriving DecidableEq, Repr

/-- Where it is wanted. -/
inductive Place where
  | here
  | after (what : String)
  | within (what : String)
  deriving DecidableEq, Repr

/-- An expectation of the grammar, or one described by its text. -/
inductive Expectation where
  | wants (wanted : Wanted) (place : Place)
  | described (text : String)
  deriving DecidableEq, Repr

/-- The wording of what is wanted. -/
def Wanted.text : Wanted → String
  | expression => "expression"
  | variableName => "variable name"
  | mark kind => "'" ++ spelling kind ++ "'"

/-- The wording of a place. -/
def Place.text : Place → String
  | here => ""
  | after what => " after " ++ what
  | within what => " in " ++ what

/-- The wording of an expectation. -/
def Expectation.text : Expectation → String
  | wants wanted place => "Expected " ++ wanted.text ++ place.text
  | described text => text

/-- Why reading stops. -/
inductive Fault where
  | unmet (expectation : Expectation)
  | tooDeep
  deriving DecidableEq, Repr

/-- The wording of a fault. -/
def Fault.text : Fault → String
  | unmet expectation => expectation.text
  | tooDeep => "Program nested too deeply"

/-- A fault and the token it was met at. -/
structure Error where
  fault : Fault
  token : Token
  deriving DecidableEq, Repr

/-- The wording of an error. -/
def Error.message (e : Error) : String :=
  "Parse error: " ++ e.fault.text ++ " (got '" ++ e.token.lexeme ++ "' at line " ++
    toString e.token.line ++ ")"

end Scriptlet.Grammar
