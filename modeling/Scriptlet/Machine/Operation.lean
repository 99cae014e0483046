import Scriptlet.Heap
import Scriptlet.Machine.Fault

/-!
# Operations on values

What operators and indexes do to values, apart from any stack or program.  Operands are checked by
kind; both operands of `and` and `or` are values already, and the result is a truth value.  Values
are shown and compared with as many calls as `Limits.calls` allows.

* `applyUnary`, `applyBinary` — the operators.
* `toIndex`, `slot` — from a value to an integer, and to a place in a list.
* `loadElement`, `slotOf` — reading an element, and the place where one is written.
-/

set_option autoImplicit false
namespace Scriptlet.Machine

variable [Limits]

/-- How a value is shown, or the fault that it is nested too deeply. -/
def shown (h : Heap) (v : Value) : Except Fault String :=
  match h.render Limits.calls v with
  | some text => .ok text
  | none => .error .nestedTooDeeply

/-- Whether two values are equal, or the fault that they are nested too deeply. -/
def compared (h : Heap) (a b : Value) : Except Fault Bool :=
  match h.equal Limits.calls a b with
  | some same => .ok same
  | none => .error .nestedTooDeeply

/-! ## Operators -/

/-- An operator before one operand. -/
def applyUnary : UnaryOp → Value → Except Fault Value
  | .neg, .number x => .ok (.number (-x))
  | .neg, _ => .error (.notNumber .neg)
  | .not, v => .ok (.bool !v.truthy)

/-- An operator that takes two numbers. -/
def onNumbers (op : BinaryOp) (f : Float → Float → Except Fault Value) :
    Value → Value → Except Fault Value
  | .number x, .number y => f x y
  | _, _ => .error (.notNumbers op)

/-- The sum of two numbers, or the two operands shown one after the other if one is a string. -/
def add (h : Heap) : Value → Value → Except Fault Value
  | .number x, .number y => .ok (.number (x + y))
  | a, b =>
    if a.isString || b.isString then do
      let s ← shown h a
      let t ← shown h b
      return .string (s ++ t)
    else .error .notAddable

/-- The quotient of two numbers, the second of which is not zero. -/
def divide (x y : Float) : Except Fault Value :=
  if y == 0 then .error .divisionByZero else .ok (.number (x / y))

/-- An operator between two operands. -/
def applyBinary (h : Heap) : BinaryOp → Value → Value → Except Fault Value
  | .add, a, b => add h a b
  | .sub, a, b => onNumbers .sub (fun x y => .ok (.number (x - y))) a b
  | .mul, a, b => onNumbers .mul (fun x y => .ok (.number (x * y))) a b
  | .div, a, b => onNumbers .div divide a b
  | .eq, a, b => do return .bool (← compared h a b)
  | .ne, a, b => do return .bool !(← compared h a b)
  | .gt, a, b => onNumbers .gt (fun x y => .ok (.bool (x > y))) a b
  | .ge, a, b => onNumbers .ge (fun x y => .ok (.bool (x ≥ y))) a b
  | .lt, a, b => onNumbers .lt (fun x y => .ok (.bool (x < y))) a b
  | .le, a, b => onNumbers .le (fun x y => .ok (.bool (x ≤ y))) a b
  | .and, a, b => .ok (.bool (a.truthy && b.truthy))
  | .or, a, b => .ok (.bool (a.truthy || b.truthy))

/-! ## Indexes -/

/-- The integer of an index: a finite number without its fraction. -/
def toIndex : Value → Except Fault Int
  | .number x =>
    match Decimal.truncated? x with
    | some i => .ok i
    | none => .error (.indexNotFinite x)
  | _ => .error .indexNotNumber

/-- The place of an index in an array of a size. -/
def slot (size : Nat) (index : Value) : Except Fault Nat := do
  let i ← toIndex index
  if 0 ≤ i && i < size then return i.toNat else throw (.indexOutOfBounds i size)

/-- The element of an array at an index. -/
def loadElement (h : Heap) (array index : Value) : Except Fault Value :=
  match array with
  | .array address => do
    let vs := h.elements address
    let i ← slot vs.length index
    return vs[i]?.getD .null
  | _ => .error .loadFromNonArray

/-- The address and the place that an assignment to an element of a variable writes to. -/
def slotOf (h : Heap) (name : Option String) (array : Option Value) (index : Value) :
    Except Fault (Nat × Nat) :=
  match array with
  | some (.array address) => do
    let i ← slot (h.elements address).length index
    return (address, i)
  | _ => .error (.storeToNonArray name)

end Scriptlet.Machine
