import Scriptlet.Machine.State

/-!
# Snapshots

Two states may differ in nothing but the addresses of their arrays.  A snapshot numbers the arrays
that can be reached by the order in which they are first met, so that such states look the same: the
stack is read from the bottom, then the variables by name, then the arrays already met, one after
the other.
-/

set_option autoImplicit false
namespace Scriptlet.Machine

/-- What can be seen of a state.  Arrays are known by their place in `heap`. -/
structure Snapshot where
  counter : Int
  stack : List Value
  store : List (Option String × Value)
  heap : List (List Value)

namespace Snapshot

/-- Adds the array of a value to the addresses met so far. -/
def meet (addresses : Array Nat) : Value → Array Nat
  | .array a => if addresses.contains a then addresses else addresses.push a
  | _ => addresses

/-- Adds the arrays among the elements of the array met at a place. -/
def meetElements (h : Heap) (addresses : Array Nat) (place : Nat) : Array Nat :=
  match addresses[place]? with
  | some a => (h.elements a).foldl meet addresses
  | none => addresses

/-- The addresses of all arrays that can be reached from some values, in the order met.  There are
no more than the heap has arrays, so that many rounds are enough. -/
def reachable (h : Heap) (roots : List Value) : Array Nat :=
  (List.range h.size).foldl (meetElements h) (roots.foldl meet #[])

/-- A value with the place of its array among the addresses met. -/
def renumber (addresses : Array Nat) : Value → Value
  | .array a => .array ((addresses.idxOf? a).getD 0)
  | v => v

/-- The order of names: a missing name first, then by code points. -/
def nameLe : Option String → Option String → Bool
  | none, _ => true
  | some _, none => false
  | some a, some b => !(b < a)

/-- The snapshot of a state. -/
def of (s : State) : Snapshot :=
  let stack := s.stack.reverse
  let store := s.store.mergeSort fun p q => nameLe p.1 q.1
  let addresses := reachable s.heap (stack ++ store.map (·.2))
  { counter := s.counter
    stack := stack.map (renumber addresses)
    store := store.map fun (name, v) => (name, renumber addresses v)
    heap := addresses.toList.map fun a => (s.heap.elements a).map (renumber addresses) }

end Snapshot

end Scriptlet.Machine
