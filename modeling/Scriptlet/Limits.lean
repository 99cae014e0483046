/-!
# Limits

Reading a program and going through a value are recursions whose depth the program and the value
decide.  How deep they may go is for the host to say, so the two bounds are parameters: definitions
that meet one of them take an instance of `Limits`, and what is proved about them holds for all
instances.

* `Limits.nesting` bounds reading, in the units that `Scriptlet.Grammar` counts.
* `Limits.calls` bounds showing and comparing.  Each value gone through is one call, and an element
  is gone through inside the call for its array; so a constant and an empty array need one call, and
  any other array one more than the neediest of its elements.

Checking declarations and assembling go down a tree too, also down chains of operators that take no
nesting to read.  These recursions are taken to have all the room they need.
-/

set_option autoImplicit false
namespace Scriptlet

/-- How deep the recursions of the library may go. -/
class Limits where
  /-- The nesting that a program may have. -/
  nesting : Nat
  /-- The number of calls that may be open at once in showing or comparing values. -/
  calls : Nat

end Scriptlet
