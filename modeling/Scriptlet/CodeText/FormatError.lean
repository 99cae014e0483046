import Scriptlet.Instruction
import Scriptlet.Text.Quoted
import Scriptlet.Text.Utf8

/-!
# Faults of written code

What can be wrong with the text of code, or keep code from being written, and on which line it was
found if the line is known.
-/

set_option autoImplicit false
namespace Scriptlet.CodeText

open Scriptlet.Text (quoted Utf8.Reason)

/-- What is wrong. -/
inductive Fault where
  | missingHeader
  | notUtf8 (reason : Utf8.Reason)
  | unknownOpcode (name : List Char)
  | missingOperand (opcode : Opcode)
  | needlessOperand (opcode : Opcode)
  | unquoted
  | danglingEscape
  | unknownEscape (c : Char)
  | lineBreak (opcode : Opcode) (operand : String)
  deriving DecidableEq, Repr

/-- The wording of a fault. -/
def Fault.text : Fault → String
  | missingHeader => "missing header"
  | notUtf8 reason => "not UTF-8 text (" ++ reason.message ++ ")"
  | unknownOpcode name => "unknown opcode '" ++ String.ofList name ++ "'"
  | missingOperand opcode => opcode.name ++ " requires an operand"
  | needlessOperand opcode => opcode.name ++ " takes no operand"
  | unquoted => Opcode.constString.name ++ " operand must be double-quoted"
  | danglingEscape => "dangling escape at end of string"
  | unknownEscape c => "unknown escape sequence '\\" ++ c.toString ++ "'"
  | lineBreak opcode operand =>
    opcode.name ++ " operand " ++ quoted operand ++
      " contains a line break and cannot be written verbatim"

/-- A fault, and its line if it is known. -/
structure Error where
  fault : Fault
  line : Option Int
  deriving DecidableEq, Repr

/-- The wording of an error. -/
def Error.message (e : Error) : String :=
  "Invalid bytecode: " ++ e.fault.text ++
    match e.line with
    | some n => " on line " ++ toString n
    | none => ""

end Scriptlet.CodeText
