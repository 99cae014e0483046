import Scriptlet.Decimal.Format
import Scriptlet.Syntax
import Scriptlet.Text.Quoted
import Scriptlet.Token

/-!
# Showing tokens and trees

The listing that a verbose compilation prints: tokens with their kinds and lines, and trees with
every field of every node by name, the line last.
-/

set_option autoImplicit false
namespace Scriptlet

open Scriptlet.Text (quoted)

/-- Texts between brackets, with a comma between them. -/
def commaSeparated (texts : List String) : String :=
  String.intercalate ", " texts

/-- A token. -/
def Token.display (t : Token) : String :=
  "Token(" ++ t.kind.name ++ ", " ++ quoted t.lexeme ++ ", line=" ++ toString t.line ++ ")"

/-- A token stream, the end included. -/
def TokenStream.display (s : TokenStream) : String :=
  "[" ++ commaSeparated (s.toList.map Token.display) ++ "]"

/-- A node: its name and its fields, the line last. -/
def displayNode (name : String) (fields : List (String × String)) (line : Int) : String :=
  let shown := (fields ++ [("line", toString line)]).map fun (field, text) => field ++ "=" ++ text
  name ++ "(" ++ commaSeparated shown ++ ")"

/-- A sequence: a single item keeps a comma after it. -/
def displaySequence : List String → String
  | [text] => "(" ++ text ++ ",)"
  | texts => "(" ++ commaSeparated texts ++ ")"

/-- An operator by its name in capitals and in small letters. -/
def displayOperator (name : String) : String :=
  "<Op." ++ name.map Char.toUpper ++ ": " ++ quoted name ++ ">"

/-- A constant. -/
def Literal.display : Literal → String
  | .null => "None"
  | .bool b => if b then "True" else "False"
  | .number x => Decimal.write x
  | .string s => quoted s
  | .char c => "Char(value=" ++ quoted c.toString ++ ")"

mutual

/-- An expression. -/
def Expr.display : Expr → String
  | .literal value line => displayNode "Literal" [("value", value.display)] line
  | .variable name line => displayNode "Variable" [("name", quoted name)] line
  | .unary op operand line =>
    displayNode "Unary" [("op", displayOperator op.name), ("operand", operand.display)] line
  | .binary left op right line =>
    displayNode "Binary"
      [("left", left.display), ("op", displayOperator op.name), ("right", right.display)] line
  | .array elements line =>
    displayNode "ArrayLiteral" [("elements", displaySequence (Expr.displayAll elements))] line
  | .element name index line =>
    displayNode "ArrayAccess" [("name", quoted name), ("index", index.display)] line

/-- Each of some expressions. -/
def Expr.displayAll : List Expr → List String
  | [] => []
  | e :: es => e.display :: Expr.displayAll es

end

/-- A declaration. -/
def Binding.displayDeclaration (b : Binding) : String :=
  displayNode "VarDecl" [("name", quoted b.name), ("initializer", b.value.display)] b.line

/-- An assignment. -/
def Binding.displayAssignment (b : Binding) : String :=
  displayNode "Assignment" [("name", quoted b.name), ("value", b.value.display)] b.line

/-- The first clause of a loop. -/
def ForInit.display : ForInit → String
  | .declare b => b.displayDeclaration
  | .assign b => b.displayAssignment

/-- A part that may be missing. -/
def displayOption (text : Option String) : String :=
  text.getD "None"

/-- The statements of a block, already shown. -/
def displayBlock (body : List String) (line : Int) : String :=
  displayNode "Block" [("statements", displaySequence body)] line

mutual

/-- A statement. -/
def Stmt.display : Stmt → String
  | .declare b => b.displayDeclaration
  | .assign b => b.displayAssignment
  | .assignElement name index value line =>
    displayNode "ArrayAssignment"
      [("name", quoted name), ("index", index.display), ("value", value.display)] line
  | .print value line => displayNode "Print" [("expression", value.display)] line
  | .block body line => displayBlock (Stmt.displayAll body) line
  | .ifThen condition body bodyLine line =>
    displayNode "If"
      [("condition", condition.display),
       ("then_branch", displayBlock (Stmt.displayAll body) bodyLine),
       ("else_branch", displayOption none)] line
  | .ifElse condition body bodyLine otherwise otherwiseLine line =>
    displayNode "If"
      [("condition", condition.display),
       ("then_branch", displayBlock (Stmt.displayAll body) bodyLine),
       ("else_branch", displayBlock (Stmt.displayAll otherwise) otherwiseLine)] line
  | .whileLoop condition body bodyLine line =>
    displayNode "While"
      [("condition", condition.display),
       ("body", displayBlock (Stmt.displayAll body) bodyLine)] line
  | .forLoop clauses body bodyLine line =>
    displayNode "For"
      [("init", displayOption (clauses.init.map ForInit.display)),
       ("condition", displayOption (clauses.condition.map Expr.display)),
       ("increment", displayOption (clauses.increment.map Binding.displayAssignment)),
       ("body", displayBlock (Stmt.displayAll body) bodyLine)] line

/-- Each of some statements. -/
def Stmt.displayAll : List Stmt → List String
  | [] => []
  | s :: ss => s.display :: Stmt.displayAll ss

end

end Scriptlet
