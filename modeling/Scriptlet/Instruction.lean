import Scriptlet.Syntax

/-!
# Instructions

The code of the stack machine is a list of instructions.  An instruction is an opcode with at most
one operand, which is kept as text.  The operators of the language are opcodes of their own.

* `Opcode` — the opcodes, and `Opcode.name`, how code is spelled.
* `Opcode.takesOperand` — whether written code must give an operand.
-/

set_option autoImplicit false
namespace Scriptlet

/-- What an instruction does. -/
inductive Opcode where
  | constNumber | constString | constChar | constBool | constNull
  | load | store
  | unary (op : UnaryOp)
  | binary (op : BinaryOp)
  | jump | jumpIfFalse
  | print
  | makeArray | loadElement | storeElement
  | halt
  deriving DecidableEq, Repr

/-- How an operator is spelled in code. -/
def UnaryOp.code : UnaryOp → String
  | neg => "NEG" | not => "NOT"

/-- How an operator is spelled in code. -/
def BinaryOp.code : BinaryOp → String
  | add => "ADD" | sub => "SUB" | mul => "MUL" | div => "DIV"
  | eq => "EQ" | ne => "NEQ" | gt => "GT" | ge => "GTE" | lt => "LT" | le => "LTE"
  | and => "AND" | or => "OR"

namespace Opcode

/-- How an opcode is spelled. -/
def name : Opcode → String
  | constNumber => "CONST_NUM"
  | constString => "CONST_STR"
  | constChar => "CONST_CHAR"
  | constBool => "CONST_BOOL"
  | constNull => "CONST_NULL"
  | load => "LOAD"
  | store => "STORE"
  | unary op => op.code
  | binary op => op.code
  | jump => "JUMP"
  | jumpIfFalse => "JUMP_IF_FALSE"
  | print => "PRINT"
  | makeArray => "MAKE_ARRAY"
  | loadElement => "ARRAY_LOAD"
  | storeElement => "ARRAY_STORE"
  | halt => "HALT"

/-- All opcodes. -/
def all : List Opcode :=
  [constNumber, constString, constChar, constBool, constNull, load, store] ++
    UnaryOp.all.map unary ++ BinaryOp.all.map binary ++
    [jump, jumpIfFalse, print, makeArray, loadElement, storeElement, halt]

/-- The opcode of a spelling. -/
def ofName? (s : String) : Option Opcode :=
  all.find? (·.name == s)

/-- Whether written code must give an operand. -/
def takesOperand : Opcode → Bool
  | constNumber | constString | constChar | constBool | load | store | jump | jumpIfFalse
  | makeArray | storeElement => true
  | constNull | unary _ | binary _ | print | loadElement | halt => false

theorem mem_all (op : Opcode) : op ∈ all := by
  cases op <;> simp [all, UnaryOp.mem_all, BinaryOp.mem_all]

/-- Spellings are **unambiguous**. -/
theorem ofName?_name (op : Opcode) : ofName? op.name = some op := by
  cases op with
  | unary op => cases op <;> decide
  | binary op => cases op <;> decide
  | _ => decide

end Opcode

/-- An opcode and its operand, if it has one. -/
structure Instruction where
  opcode : Opcode
  operand : Option String := none
  deriving DecidableEq, Repr

/-- An instruction in plain words: the opcode, and the operand as it is. -/
def Instruction.plain (i : Instruction) : String :=
  match i.operand with
  | none => i.opcode.name
  | some text => i.opcode.name ++ " " ++ text

/-- The place that an index means in code of a size: a negative index counts back from the end. -/
def place? (size : Nat) (index : Int) : Option Nat :=
  let i := if index < 0 then index + size else index
  if 0 ≤ i && i < size then some i.toNat else none

theorem place?_natCast (size i : Nat) : place? size i = if i < size then some i else none := by
  have h : ¬((i : Int) < 0) := by omega
  by_cases hi : i < size <;> simp [place?, h, hi]

end Scriptlet
