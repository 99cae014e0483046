import Scriptlet.Decimal.Format
import Scriptlet.Limits
import Scriptlet.Value

/-!
# The heap

Arrays live in a heap and are known by their addresses.  An array keeps its length; its elements may
be replaced, also by the array itself, so that what a value unfolds to may have no end.  Showing and
comparing are therefore given a number of calls that may be open at once, and fail when they need
more.  Each value is one call; the calls for its elements are made inside it.

* `Heap.alloc`, `Heap.elements`, `Heap.write` — the three operations on arrays.
* `Heap.render` — how a value is shown.
* `Heap.equal` — whether two values are equal: arrays element by element, from left to right, up to
  the first difference; lengths first.
-/

set_option autoImplicit false
namespace Scriptlet

/-- The arrays of a run, by address. -/
structure Heap where
  arrays : Array (List Value) := #[]

namespace Heap

/-- The number of arrays. -/
def size (h : Heap) : Nat :=
  h.arrays.size

/-- The elements of the array at an address. -/
def elements (h : Heap) (address : Nat) : List Value :=
  h.arrays[address]?.getD []

/-- A new array; its address is the number of arrays before it. -/
def alloc (h : Heap) (elements : List Value) : Heap :=
  ⟨h.arrays.push elements⟩

/-- Replaces one element of an array. -/
def write (h : Heap) (address index : Nat) (v : Value) : Heap :=
  ⟨h.arrays.modify address (·.set index v)⟩

@[simp] theorem size_alloc (h : Heap) (vs : List Value) : (h.alloc vs).size = h.size + 1 := by
  simp [alloc, size]

@[simp] theorem size_write (h : Heap) (a i : Nat) (v : Value) : (h.write a i v).size = h.size := by
  simp [write, size]

theorem elements_of_size_le (h : Heap) {a : Nat} (ha : h.size ≤ a) : h.elements a = [] := by
  rw [elements, Array.getElem?_eq_none ha]
  rfl

theorem elements_alloc_self (h : Heap) (vs : List Value) : (h.alloc vs).elements h.size = vs := by
  simp [alloc, elements, size]

theorem elements_alloc_of_lt (h : Heap) (vs : List Value) {a : Nat} (ha : a < h.size) :
    (h.alloc vs).elements a = h.elements a := by
  have : a < h.arrays.size := ha
  simp [alloc, elements, Array.getElem?_push_lt, this]

theorem elements_write_self (h : Heap) (a i : Nat) (v : Value) :
    (h.write a i v).elements a = (h.elements a).set i v := by
  by_cases ha : a < h.arrays.size <;> simp [write, elements, Array.getElem_modify, ha]

theorem elements_write_of_ne (h : Heap) {a b : Nat} (i : Nat) (v : Value) (hb : b ≠ a) :
    (h.write a i v).elements b = h.elements b := by
  simp [write, elements, Array.getElem?_modify, Ne.symm hb]

/-! ## Data -/

mutual

/-- Puts a datum into the heap. -/
def load (h : Heap) : Datum → Heap × Value
  | .scalar value => (h, .ofLiteral value)
  | .list items =>
    let (h, vs) := h.loadAll items
    (h.alloc vs, .array h.size)

/-- Puts some data into the heap, from left to right. -/
def loadAll (h : Heap) : List Datum → Heap × List Value
  | [] => (h, [])
  | d :: ds =>
    let (h, v) := h.load d
    let (h, vs) := h.loadAll ds
    (h, v :: vs)

end

/-! ## Showing values -/

/-- How a value is shown, with a number of calls; nothing if that takes more. -/
def render (h : Heap) : Nat → Value → Option String
  | 0, _ => none
  | _ + 1, .null => some "null"
  | _ + 1, .bool b => some (if b then "true" else "false")
  | _ + 1, .number x => some (Decimal.writeBrief x)
  | _ + 1, .string s => some s
  | _ + 1, .char c => some c.toString
  | calls + 1, .array address => do
    let texts ← (h.elements address).mapM (h.render calls)
    return "[" ++ String.intercalate ", " texts ++ "]"

/-! ## Comparing values -/

/-- Compares two lists element by element, up to the first difference or failure. -/
def allEqual (same : Value → Value → Option Bool) : List Value → List Value → Option Bool
  | a :: as, b :: bs =>
    match same a b with
    | some true => allEqual same as bs
    | r => r
  | _, _ => some true

/-- Whether two values are equal, with a number of calls; nothing if that takes more. -/
def equal (h : Heap) : Nat → Value → Value → Option Bool
  | 0, _, _ => none
  | calls + 1, .array a, .array b =>
    let xs := h.elements a
    let ys := h.elements b
    if xs.length = ys.length then allEqual (h.equal calls) xs ys else some false
  | _ + 1, a, b => some (a.sameScalar b)

end Heap

end Scriptlet
