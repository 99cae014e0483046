/-!
# Tokens

A token is a kind, the exact text it was read from, and the line on which that text begins.  A
token stream is the tokens of a whole source text and the line on which the text ends; the end of
the text counts as one more token with an empty lexeme.
-/

set_option autoImplicit false
namespace Scriptlet

/-- The kinds of tokens: keywords, names and literals, operators, punctuation, the end. -/
inductive TokenKind where
  | kwLet | kwIf | kwElse | kwWhile | kwFor | kwPrint | kwAnd | kwOr | kwNot
  | identifier | number | string | char
  | plus | minus | star | slash
  | equal | equalEqual | bangEqual | greater | greaterEqual | less | lessEqual
  | leftParen | rightParen | leftBrace | rightBrace | leftBracket | rightBracket
  | semicolon | comma
  | endOfText
  deriving DecidableEq, Repr

namespace TokenKind

/-- All kinds, the end last. -/
def all : List TokenKind :=
  [kwLet, kwIf, kwElse, kwWhile, kwFor, kwPrint, kwAnd, kwOr, kwNot,
   identifier, number, string, char,
   plus, minus, star, slash,
   equal, equalEqual, bangEqual, greater, greaterEqual, less, lessEqual,
   leftParen, rightParen, leftBrace, rightBrace, leftBracket, rightBracket,
   semicolon, comma, endOfText]

/-- The name of a kind in listings of tokens. -/
def name : TokenKind → String
  | kwLet => "LET" | kwIf => "IF" | kwElse => "ELSE" | kwWhile => "WHILE" | kwFor => "FOR"
  | kwPrint => "PRINT" | kwAnd => "AND" | kwOr => "OR" | kwNot => "NOT"
  | identifier => "IDENTIFIER" | number => "NUMBER" | string => "STRING" | char => "CHAR"
  | plus => "PLUS" | minus => "MINUS" | star => "STAR" | slash => "SLASH"
  | equal => "EQUAL" | equalEqual => "EQUAL_EQUAL" | bangEqual => "BANG_EQUAL"
  | greater => "GREATER" | greaterEqual => "GREATER_EQUAL"
  | less => "LESS" | lessEqual => "LESS_EQUAL"
  | leftParen => "LPAREN" | rightParen => "RPAREN"
  | leftBrace => "LBRACE" | rightBrace => "RBRACE"
  | leftBracket => "LBRACKET" | rightBracket => "RBRACKET"
  | semicolon => "SEMICOLON" | comma => "COMMA"
  | endOfText => "EOF"

/-- The kind of a name. -/
def ofName? (s : String) : Option TokenKind :=
  all.find? (·.name == s)

theorem mem_all (k : TokenKind) : k ∈ all := by
  cases k <;> simp [all]

end TokenKind

/-- A token.  Lines count from 1. -/
structure Token where
  kind : TokenKind
  lexeme : String
  line : Int
  deriving DecidableEq, Repr

/-- The tokens of a source text and the line on which it ends. -/
structure TokenStream where
  tokens : List Token
  endLine : Int
  deriving DecidableEq, Repr

namespace TokenStream

/-- The end of the text as a token. -/
def endToken (s : TokenStream) : Token :=
  ⟨.endOfText, "", s.endLine⟩

/-- All tokens, the end last. -/
def toList (s : TokenStream) : List Token :=
  s.tokens ++ [s.endToken]

end TokenStream

end Scriptlet
