import Scriptlet.Decimal.Numeral
import Scriptlet.Machine.Operation
import Scriptlet.Machine.State

/-!
# Executing one instruction

An instruction is an action on the state that may stop with a fault.  It takes its operands from the
stack, last one first, and puts its result there; then the counter moves on by one, or to the target
of a jump.  What was taken from the stack before a fault stays taken, and the counter stays on the
instruction.

* `pop`, `push`, `proceed` — the elementary actions.
* `execute size i` — the instruction `i` in a program of `size` instructions.
-/

set_option autoImplicit false
namespace Scriptlet.Machine

variable [Limits]

/-- Actions on the state. -/
abbrev Action := EStateM Fault State

/-! ## Elementary actions -/

/-- Takes the top of the stack. -/
def pop : Action Value := do
  let s ← get
  match s.stack with
  | [] => throw .stackUnderflow
  | v :: rest =>
    set { s with stack := rest }
    return v

/-- Puts a value on the stack. -/
def push (v : Value) : Action Unit :=
  modify fun s => { s with stack := v :: s.stack }

/-- Moves on to the next instruction. -/
def proceed : Action Unit :=
  modify fun s => { s with counter := s.counter + 1 }

/-- Moves to an instruction. -/
def goTo (index : Int) : Action Unit :=
  modify fun s => { s with counter := index }

/-- The result of an operation, or its fault. -/
def result {α : Type} : Except Fault α → Action α
  | .ok a => return a
  | .error fault => throw fault

/-- Puts a value on the stack and moves on. -/
def yield (v : Value) : Action Unit := do
  push v
  proceed

/-! ## Operands -/

/-- The integer that an operand writes. -/
def integerOperand (i : Instruction) : Except Fault Int :=
  match i.operand.bind Decimal.readInteger? with
  | some n => .ok n
  | none => .error (.notInteger i.opcode i.operand)

/-- The target of a jump: an instruction of the program, or the place after the last one. -/
def jumpTarget (size : Nat) (i : Instruction) : Except Fault Nat := do
  let target ← integerOperand i
  if 0 ≤ target && target ≤ size then return target.toNat
  else throw (.targetOutside i.opcode target size)

/-- The constant that an instruction pushes. -/
def constant (i : Instruction) : Except Fault Value :=
  match i.opcode, i.operand with
  | .constNumber, operand =>
    match operand.bind Decimal.readNumber? with
    | some x => .ok (.number x)
    | none => .error (.invalidNumber operand)
  | .constString, some text => .ok (.string text)
  | .constChar, operand =>
    match operand.bind (·.toList.head?) with
    | some c => .ok (.char c)
    | none => .error .emptyChar
  | .constBool, operand =>
    .ok (.bool (operand.any fun text => text.toList.map Char.toLower = "true".toList))
  | _, _ => .ok .null

/-! ## Instructions -/

/-- Adds a line to those printed, and writes it with a line feed after it. -/
def printLine (line : String) : Action Unit :=
  modify fun s => { s with
    output := s.output.push line
    written := s.written ++ line ++ "\n" }

/-- Takes the given number of values and makes an array of them. -/
def makeArray (i : Instruction) : Action Unit := do
  let count ← result (integerOperand i)
  let s ← get
  if count < 0 || s.stack.length < count then
    throw (.tooFewElements count s.stack.length)
  else
    let n := count.toNat
    set { s with
      stack := .array s.heap.size :: s.stack.drop n
      heap := s.heap.alloc (s.stack.take n).reverse : State }
    proceed

/-- Takes an index and a value, and writes the value to the array of a variable. -/
def storeElement (name : Option String) : Action Unit := do
  let index ← pop
  let v ← pop
  let s ← get
  let (address, i) ← result (slotOf s.heap name (s.store.get? name) index)
  set { s with heap := s.heap.write address i v : State }
  proceed

/-- One instruction of a program of a size. -/
def execute (size : Nat) (i : Instruction) : Action Unit := do
  match i.opcode with
  | .constNumber | .constString | .constChar | .constBool | .constNull =>
    yield (← result (constant i))
  | .load =>
    match (← get).store.get? i.operand with
    | some v => yield v
    | none => throw (.undefined i.operand)
  | .store =>
    let v ← pop
    modify fun s => { s with store := s.store.put i.operand v }
    proceed
  | .unary op =>
    let v ← pop
    yield (← result (applyUnary op v))
  | .binary op =>
    let b ← pop
    let a ← pop
    yield (← result (applyBinary (← get).heap op a b))
  | .jump => goTo (← result (jumpTarget size i))
  | .jumpIfFalse =>
    let target ← result (jumpTarget size i)
    let condition ← pop
    if condition.truthy then proceed else goTo target
  | .print =>
    let v ← pop
    let line ← result (shown (← get).heap v)
    printLine line
    proceed
  | .makeArray => makeArray i
  | .loadElement =>
    let index ← pop
    let array ← pop
    yield (← result (loadElement (← get).heap array index))
  | .storeElement => storeElement i.operand
  | .halt => throw (.notExecutable .halt)

end Scriptlet.Machine
