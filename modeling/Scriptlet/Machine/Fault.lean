import Scriptlet.Decimal.Format
import Scriptlet.Instruction
import Scriptlet.Text.Quoted

/-!
# Faults of a run

Why an instruction cannot be executed, and the wording of each reason.  An error is a fault and the
index of the instruction that met it.
-/

set_option autoImplicit false
namespace Scriptlet.Machine

open Scriptlet.Text (quotedOption)

/-- Why an instruction cannot be executed. -/
inductive Fault where
  | stackUnderflow
  | invalidNumber (operand : Option String)
  | emptyChar
  | undefined (name : Option String)
  | notAddable
  | notNumbers (op : BinaryOp)
  | divisionByZero
  | notNumber (op : UnaryOp)
  | notInteger (opcode : Opcode) (operand : Option String)
  | targetOutside (opcode : Opcode) (target : Int) (size : Nat)
  | tooFewElements (count : Int) (height : Nat)
  | loadFromNonArray
  | storeToNonArray (name : Option String)
  | indexNotNumber
  | indexNotFinite (index : Float)
  | indexOutOfBounds (index : Int) (size : Nat)
  | notExecutable (opcode : Opcode)
  | nestedTooDeeply

/-- A name that may be missing. -/
def shownName (name : Option String) : String :=
  name.getD "None"

/-- The wording of a fault. -/
def Fault.text : Fault → String
  | stackUnderflow => "Stack underflow"
  | invalidNumber operand => "Invalid number constant " ++ quotedOption operand
  | emptyChar => "Empty char constant"
  | undefined name => "Undefined variable '" ++ shownName name ++ "'"
  | notAddable => BinaryOp.add.code ++ " requires two numbers or at least one string"
  | notNumbers op => op.code ++ " requires two numbers"
  | divisionByZero => "Division by zero"
  | notNumber op => op.code ++ " requires a number"
  | notInteger opcode operand =>
    opcode.name ++ " expects an integer operand, got " ++ quotedOption operand
  | targetOutside opcode target size =>
    opcode.name ++ " target " ++ toString target ++ " outside program (size " ++ toString size ++
      ")"
  | tooFewElements count height =>
    Opcode.makeArray.name ++ " of " ++ toString count ++ " elements with " ++ toString height ++
      " on the stack"
  | loadFromNonArray => Opcode.loadElement.name ++ ": not an array"
  | storeToNonArray name =>
    Opcode.storeElement.name ++ ": '" ++ shownName name ++ "' is not an array"
  | indexNotNumber => "Array index must be a number"
  | indexNotFinite index => "Array index " ++ Decimal.writeBrief index ++ " is not finite"
  | indexOutOfBounds index size =>
    "Array index " ++ toString index ++ " out of bounds (size " ++ toString size ++ ")"
  | notExecutable opcode => "Unknown opcode: " ++ opcode.name
  | nestedTooDeeply => "Value nested too deeply"

/-- A fault and the index of the instruction that met it. -/
structure Error where
  fault : Fault
  index : Int

/-- The wording of an error. -/
def Error.message (e : Error) : String :=
  "VM error at instruction " ++ toString e.index ++ ": " ++ e.fault.text

end Scriptlet.Machine
