import Scriptlet.CodeText.Escape
import Scriptlet.Text.Blank

/-!
# One instruction, one line

A line of code is an opcode, or an opcode, a space and the operand.  The operand of a string
constant stands between quotes with escapes; every other operand is written as it is, so it must not
hold an end of line.  Blanks before the opcode are ignored; everything after the first space belongs
to the operand.

* `encode` — the line of an instruction.
* `decode` — the instruction of a line.
-/

set_option autoImplicit false
namespace Scriptlet.CodeText

open Scriptlet.Text

/-- Whether a character ends a line. -/
def isLineBreak (c : Char) : Bool :=
  c = '\n' || c = '\r'

/-- The line of an instruction, as characters. -/
def encodeChars (i : Instruction) : Except Error (List Char) :=
  let name := i.opcode.name.toList
  match i.operand with
  | none => .ok name
  | some text =>
    if i.opcode = .constString then .ok (name ++ ' ' :: '"' :: (escape text.toList ++ ['"']))
    else if text.toList.any isLineBreak then .error ⟨.lineBreak i.opcode text, none⟩
    else .ok (name ++ ' ' :: text.toList)

/-- The line of an instruction. -/
def encode (i : Instruction) : Except Error String :=
  (encodeChars i).map String.ofList

/-- A line cut at its first space: what stands before it, and what stands after it if there is
one. -/
def cutAtSpace : List Char → List Char × Option (List Char)
  | [] => ([], none)
  | c :: cs =>
    if c = ' ' then ([], some cs)
    else
      let (name, operand) := cutAtSpace cs
      (c :: name, operand)

/-- What stands between the quotes of an operand. -/
def betweenQuotes? : List Char → Option (List Char)
  | '"' :: cs => if cs.getLast? = some '"' then some cs.dropLast else none
  | _ => none

/-- The string constant of an operand in quotes. -/
def decodeString (operand : List Char) : Except Fault Instruction :=
  match betweenQuotes? operand with
  | none => .error .unquoted
  | some inner => (unescape inner).map fun s => ⟨.constString, some (String.ofList s)⟩

/-- The instruction of an opcode and what follows it, if a space does. -/
def decodeOperand (opcode : Opcode) (operand : Option (List Char)) : Except Fault Instruction :=
  match operand with
  | none => if opcode.takesOperand then .error (.missingOperand opcode) else .ok ⟨opcode, none⟩
  | some text =>
    if opcode.takesOperand then
      if opcode = .constString then decodeString text
      else .ok ⟨opcode, some (String.ofList text)⟩
    else if text.all isBlank then .ok ⟨opcode, none⟩
    else .error (.needlessOperand opcode)

/-- The instruction of a line, or what is wrong with it. -/
def decodeChars (line : List Char) : Except Fault Instruction :=
  let (name, operand) := cutAtSpace (trimStart isBlank line)
  match Opcode.ofName? (String.ofList name) with
  | none => .error (.unknownOpcode name)
  | some opcode => decodeOperand opcode operand

/-- The instruction of the line with a number. -/
def decode (line : List Char) (number : Int) : Except Error Instruction :=
  (decodeChars line).mapError fun fault => ⟨fault, some number⟩

end Scriptlet.CodeText
