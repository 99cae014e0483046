import Scriptlet.Text.Quoted

/-!
# Paths

A path is its leading slashes and its parts.  Doubled and trailing slashes and the part `.` say
nothing and are dropped; the part `..` is kept.  Exactly two leading slashes are kept, and any other
number of them is one.  Compiled code goes next to its source, under the source's name with
`.cpyc` in place of `.cpy`, or after whatever name it has.
-/

set_option autoImplicit false
namespace Scriptlet

/-- Leading slashes and parts. -/
structure Path where
  slashes : Nat
  parts : List String
  deriving DecidableEq, Repr

namespace Path

/-- The pieces of a text between slashes. -/
def pieces (text : String) : List String :=
  (text.toList.splitOn '/').map String.ofList

/-- Whether a piece of a path says something. -/
def isPart (piece : String) : Bool :=
  piece ≠ "" && piece ≠ "."

/-- The path that a text writes. -/
def ofString (text : String) : Path :=
  let leading := (text.toList.takeWhile (· = '/')).length
  { slashes := if leading = 2 then 2 else min leading 1
    parts := (pieces text).filter isPart }

/-- The text of a path; the empty path is `.`. -/
def text (p : Path) : String :=
  if p.slashes = 0 && p.parts.isEmpty then "."
  else String.ofList (List.replicate p.slashes '/') ++ String.intercalate "/" p.parts

/-- The last part. -/
def name? (p : Path) : Option String :=
  p.parts.getLast?

/-- The same path with another last part. -/
def withName (p : Path) (name : String) : Path :=
  { p with parts := p.parts.dropLast ++ [name] }

/-! ## Compiled code -/

/-- The suffix of a name, from its last dot; a dot at either end of the name begins none. -/
def suffix (name : String) : String :=
  let afterDot := (name.toList.reverse.takeWhile (· ≠ '.')).reverse
  let stem := name.length - afterDot.length
  if 2 ≤ stem && !afterDot.isEmpty then String.ofList ('.' :: afterDot) else ""

/-- The name of the compiled code of a source. -/
def compiledName (name : String) : String :=
  if suffix name = ".cpy" then name ++ "c" else name ++ ".cpyc"

/-- A path without a last part, where one is needed. -/
structure Nameless where
  path : Path
  deriving DecidableEq, Repr

/-- The wording of the refusal. -/
def Nameless.message (e : Nameless) : String :=
  "PosixPath(" ++ Text.quoted e.path.text ++ ") has an empty name"

/-- Where the compiled code of a source goes. -/
def compiled (source : Path) : Except Nameless Path :=
  match source.name? with
  | some name => .ok (source.withName (compiledName name))
  | none => .error ⟨source⟩

end Path

end Scriptlet
