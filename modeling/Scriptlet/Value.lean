import Scriptlet.Syntax
import Scriptlet.Text.Quoted

/-!
# Values

A value is null, a truth value, a number, a string, a character, or a reference to an array.  Arrays
live in a heap and are shared: two values may refer to the same array.  A *datum* is a value written
out as a tree, with arrays as lists of data.
-/

set_option autoImplicit false
namespace Scriptlet

/-- What programs compute with. -/
inductive Value where
  | null
  | bool (b : Bool)
  | number (x : Float)
  | string (s : String)
  | char (c : Char)
  | array (address : Nat)

/-- A value written out, arrays as lists. -/
inductive Datum where
  | scalar (value : Literal)
  | list (items : List Datum)

namespace Value

/-- The value of a constant. -/
def ofLiteral : Literal → Value
  | .null => .null
  | .bool b => .bool b
  | .number x => .number x
  | .string s => .string s
  | .char c => .char c

/-- The name of the kind of a value. -/
def kindName : Value → String
  | null => "null"
  | bool _ => "bool"
  | number _ => "number"
  | string _ => "string"
  | char _ => "char"
  | array _ => "array"

/-- Whether a condition holds: null and zero do not, a truth value is itself, all else does. -/
def truthy : Value → Bool
  | null => false
  | bool b => b
  | number x => !(x == 0)
  | _ => true

/-- Whether a value is a string. -/
def isString : Value → Bool
  | string _ => true
  | _ => false

/-- Whether two values that are not both arrays are equal: same kind and same content. -/
def sameScalar : Value → Value → Bool
  | null, null => true
  | bool a, bool b => a == b
  | number x, number y => x == y
  | string s, string t => s == t
  | char c, char d => c == d
  | _, _ => false

end Value

/-- A text given for a character that is not exactly one character. -/
structure BadChar where
  text : String
  deriving DecidableEq, Repr

/-- The wording of the refusal. -/
def BadChar.message (e : BadChar) : String :=
  "Char holds exactly one character, got " ++ Text.quoted e.text

/-- The character that is all of a text. -/
def onlyChar (text : String) : Except BadChar Char :=
  match text.toList with
  | [c] => .ok c
  | _ => .error ⟨text⟩

end Scriptlet
