/-!
# Blank characters

White space as the Unicode property has it: the ASCII controls from tab to carriage return, the
four separator controls, the space, next line, no-break space and the spaces and line separators
of the general punctuation block.  The zero-width characters are not blank.

* `isBlank` — the property, from a table of ranges.
* `isPadding` — the blanks that may surround a numeral: all but the four separator controls.
* `trimStart`, `trim` — drop characters of a class from the front, or from both ends.
-/

set_option autoImplicit false
namespace Scriptlet.Text

/-- The ranges of blank code points, both ends included. -/
def blankRanges : List (Nat × Nat) :=
  [(0x09, 0x0d), (0x1c, 0x20), (0x85, 0x85), (0xa0, 0xa0), (0x1680, 0x1680), (0x2000, 0x200a),
   (0x2028, 0x2029), (0x202f, 0x202f), (0x205f, 0x205f), (0x3000, 0x3000)]

/-- A character is blank when some range holds it. -/
def isBlank (c : Char) : Bool :=
  blankRanges.any fun r => r.1 ≤ c.toNat && c.toNat ≤ r.2

/-- The blanks that may stand around a numeral. -/
def isPadding (c : Char) : Bool :=
  isBlank c && !(0x1c ≤ c.toNat && c.toNat ≤ 0x1f)

/-- Drops the leading characters of a class. -/
def trimStart (p : Char → Bool) (cs : List Char) : List Char :=
  cs.dropWhile p

/-- Drops the characters of a class from both ends. -/
def trim (p : Char → Bool) (cs : List Char) : List Char :=
  (trimStart p (trimStart p cs).reverse).reverse

end Scriptlet.Text
