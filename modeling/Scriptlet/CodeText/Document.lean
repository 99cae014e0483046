import Scriptlet.CodeText.Line
import Scriptlet.Text.Lines

/-!
# Whole programs as text

The first line of a code text is the header, perhaps with more after it; then there is one line per
instruction.  Blank lines are skipped, and a line may end with a carriage return.  As bytes the text
is UTF-8.

* `write`, `read` — between instructions and text.
* `serialize`, `deserialize` — between instructions and bytes.
* `listing` — the numbered lines of a program.
-/

set_option autoImplicit false
namespace Scriptlet.CodeText

open Scriptlet.Text

/-- The line that every code text begins with. -/
def header : String := "#CPY_BYTECODE v1.0"

/-! ## Writing -/

/-- The lines of some instructions; the first that cannot be written is the error. -/
def encodeAll : List Instruction → Except Error (List (List Char))
  | [] => .ok []
  | i :: is => do
    let line ← encodeChars i
    let lines ← encodeAll is
    return line :: lines

/-- The text of a program, as characters: every line, the header first, ends with a line feed. -/
def writeChars (program : List Instruction) : Except Error (List Char) := do
  let lines ← encodeAll program
  return (header.toList :: lines).flatMap (· ++ ['\n'])

/-- The text of a program. -/
def write (program : List Instruction) : Except Error String :=
  (writeChars program).map String.ofList

/-- The bytes of a program. -/
def serialize (program : List Instruction) : Except Error ByteArray :=
  (write program).map String.toUTF8

/-! ## Reading -/

/-- A line without one carriage return at its end. -/
def dropReturn (line : List Char) : List Char :=
  if line.getLast? = some '\r' then line.dropLast else line

/-- The first line of a text without the carriage returns at its end. -/
def firstLine (lines : List (List Char)) : List Char :=
  ((lines.headD []).reverse.dropWhile (· = '\r')).reverse

/-- The instructions of some lines, the first of which has a number. -/
def decodeAll (number : Int) : List (List Char) → Except Error (List Instruction)
  | [] => .ok []
  | raw :: rest =>
    let line := dropReturn raw
    if line.all isBlank then decodeAll (number + 1) rest
    else do
      let i ← decode line number
      let is ← decodeAll (number + 1) rest
      return i :: is

/-- Whether the first line of a text is a header. -/
def hasHeader (lines : List (List Char)) : Bool :=
  header.toList.isPrefixOf (firstLine lines)

/-- The program of a text, as characters. -/
def readChars (text : List Char) : Except Error (List Instruction) :=
  let ls := lines text
  if hasHeader ls then decodeAll 2 ls.tail else .error ⟨.missingHeader, none⟩

/-- The program of a text. -/
def read (text : String) : Except Error (List Instruction) :=
  readChars text.toList

/-- The text of some bytes. -/
def decodeText (bytes : ByteArray) : Except Error String :=
  (Utf8.decode bytes).mapError fun fault => ⟨.notUtf8 fault.reason, none⟩

/-- The program of some bytes. -/
def deserialize (bytes : ByteArray) : Except Error (List Instruction) := do
  read (← decodeText bytes)

/-! ## Listings -/

/-- A number in a column of width four. -/
def column (n : Nat) : String :=
  let digits := toString n
  "".pushn ' ' (4 - digits.length) ++ digits

/-- The lines of a listing, the first of which has a number. -/
def listingLines (number : Nat) : List Instruction → Except Error (List String)
  | [] => .ok []
  | i :: is => do
    let line ← encode i
    let lines ← listingLines (number + 1) is
    return (column number ++ "  " ++ line) :: lines

/-- The numbered lines of a program. -/
def listing (program : List Instruction) : Except Error String :=
  (listingLines 0 program).map (String.intercalate "\n")

end Scriptlet.CodeText
