import Scriptlet.Heap

/-!
# The state of a run

The machine has a counter that holds the index of the next instruction, a stack of values, the
variables, the heap, the lines printed so far, and a stream that they are written to as text.  A
variable is known by its name; a missing name is a name too.

* `Store` — the variables, in the order in which they were first given a value.
* `State` — all of it.  The top of the stack is the head of the list.
-/

set_option autoImplicit false
namespace Scriptlet.Machine

/-- The variables and their values. -/
abbrev Store := List (Option String × Value)

namespace Store

/-- The value of a variable. -/
def get? (s : Store) (name : Option String) : Option Value :=
  List.lookup name s

/-- Gives a variable a value. -/
def put : Store → Option String → Value → Store
  | [], name, v => [(name, v)]
  | (n, w) :: rest, name, v =>
    if n = name then (n, v) :: rest else (n, w) :: put rest name v

theorem get?_put_self (s : Store) (name : Option String) (v : Value) :
    (s.put name v).get? name = some v := by
  induction s with
  | nil => simp [put, get?]
  | cons p rest ih =>
    obtain ⟨n, w⟩ := p
    by_cases h : n = name
    · simp [put, get?, h]
    · have : (name == n) = false := by simpa using fun e => h e.symm
      simpa [put, get?, h, List.lookup_cons, this] using ih

theorem get?_put_of_ne (s : Store) {m name : Option String} (v : Value) (hm : m ≠ name) :
    (s.put name v).get? m = s.get? m := by
  have hb : (m == name) = false := by simpa using hm
  induction s with
  | nil => simp [put, get?, List.lookup_cons, hb]
  | cons p rest ih =>
    obtain ⟨n, w⟩ := p
    by_cases h : n = name
    · subst h
      simp [put, get?, List.lookup_cons, hb]
    · by_cases hmn : m = n
      · simp [put, get?, h, hmn]
      · have : (m == n) = false := by simpa using hmn
        simpa [put, get?, h, List.lookup_cons, this] using ih

end Store

/-- Counter, stack with its top first, variables, heap, the lines printed and the text written. -/
structure State where
  counter : Int := 0
  stack : List Value := []
  store : Store := []
  heap : Heap := {}
  output : Array String := #[]
  written : String := ""

end Scriptlet.Machine
