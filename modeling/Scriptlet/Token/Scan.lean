import Scriptlet.Token

/-!
# Cutting source text into tokens

The text is cut into *segments* from left to right, each the longest that one of the rules takes: a
comment to the end of its line, a line feed, a run of blanks, a literal, a word, an operator or a
mark of punctuation.  Comments, line feeds and blanks separate tokens and are dropped; every other
segment is a token, and its line is found by counting the line feeds before it.  Cutting stops at
the first place where no rule applies.

* `Segment.measure?` — the rule for the segment that begins with a given character: its class, and
  how many further characters belong to it.
* `Segment.scan` — the segments of a text, up to its end or to the place where no rule applies.
* `Token.locate` — the tokens among some segments, with their lines.
* `tokenize` — the tokens of a text, or the fault that stops the scan.
-/

set_option autoImplicit false
namespace Scriptlet

/-! ## Character classes -/

/-- The blanks that separate tokens on one line. -/
def isSeparator (c : Char) : Bool :=
  c = ' ' || c = '\t' || c = '\r'

/-- The characters that may begin a word. -/
def isWordStart (c : Char) : Bool :=
  c.isAlpha || c = '_'

/-- The characters that may continue a word. -/
def isWordPart (c : Char) : Bool :=
  c.isAlphanum || c = '_'

/-- The words that are keywords. -/
def keywords : List (String × TokenKind) :=
  [("let", .kwLet), ("if", .kwIf), ("else", .kwElse), ("while", .kwWhile), ("for", .kwFor),
   ("print", .kwPrint), ("and", .kwAnd), ("or", .kwOr), ("not", .kwNot)]

/-- The kind of a word: that of the keyword, or an identifier. -/
def wordKind (word : List Char) : TokenKind :=
  (keywords.lookup (String.ofList word)).getD .identifier

/-! ## Segments -/

/-- What a segment is. -/
inductive SegmentKind where
  | comment
  | newline
  | blanks
  | token (kind : TokenKind)
  deriving DecidableEq, Repr

/-- A piece of source text. -/
structure Segment where
  kind : SegmentKind
  text : List Char
  deriving DecidableEq, Repr

namespace Segment

/-- How many characters continue a number after its first digit: digits, and a point with at least
one digit after it. -/
def numberTail (cs : List Char) : Nat :=
  let whole := (cs.takeWhile Char.isDigit).length
  match cs.drop whole with
  | '.' :: d :: rest =>
    if d.isDigit then whole + 2 + (rest.takeWhile Char.isDigit).length else whole
  | _ => whole

/-- The operator or mark that begins with a character, two characters being preferred to one. -/
def symbol? (c : Char) (cs : List Char) : Option (TokenKind × Nat) :=
  match c, cs.head? with
  | '=', some '=' => some (.equalEqual, 1)
  | '!', some '=' => some (.bangEqual, 1)
  | '>', some '=' => some (.greaterEqual, 1)
  | '<', some '=' => some (.lessEqual, 1)
  | '=', _ => some (.equal, 0)
  | '!', _ => some (.kwNot, 0)
  | '>', _ => some (.greater, 0)
  | '<', _ => some (.less, 0)
  | '+', _ => some (.plus, 0)
  | '-', _ => some (.minus, 0)
  | '*', _ => some (.star, 0)
  | '/', _ => some (.slash, 0)
  | '(', _ => some (.leftParen, 0)
  | ')', _ => some (.rightParen, 0)
  | '\x7b', _ => some (.leftBrace, 0)
  | '\x7d', _ => some (.rightBrace, 0)
  | '[', _ => some (.leftBracket, 0)
  | ']', _ => some (.rightBracket, 0)
  | ';', _ => some (.semicolon, 0)
  | ',', _ => some (.comma, 0)
  | _, _ => none

/-- The class of the segment that begins with `c`, and how many of the characters after `c` belong
to it; nothing if no rule applies. -/
def measure? (c : Char) (cs : List Char) : Option (SegmentKind × Nat) :=
  if c = '/' && cs.head? = some '/' then
    some (.comment, (cs.takeWhile (· ≠ '\n')).length)
  else if c = '\n' then some (.newline, 0)
  else if isSeparator c then some (.blanks, (cs.takeWhile isSeparator).length)
  else if c.isDigit then some (.token .number, numberTail cs)
  else if c = '"' then
    if cs.contains '"' then some (.token .string, (cs.takeWhile (· ≠ '"')).length + 1) else none
  else if c = '\'' then
    match cs with
    | x :: y :: _ => if x ≠ '\'' && y = '\'' then some (.token .char, 2) else none
    | _ => none
  else if isWordStart c then
    let tail := cs.takeWhile isWordPart
    some (.token (wordKind (c :: tail)), tail.length)
  else (symbol? c cs).map fun (kind, n) => (.token kind, n)

/-- The segments of a text, and the text left over where no rule applies. -/
def scan : List Char → List Segment × List Char
  | [] => ([], [])
  | c :: cs =>
    match measure? c cs with
    | none => ([], c :: cs)
    | some (kind, n) =>
      let (segments, rest) := scan (cs.drop n)
      (⟨kind, c :: cs.take n⟩ :: segments, rest)
termination_by cs => cs.length
decreasing_by simp only [List.length_drop, List.length_cons]; omega

end Segment

/-! ## Lines -/

/-- The number of line feeds in a text. -/
def newlines (cs : List Char) : Int :=
  cs.count '\n'

/-- The tokens among some segments, the first of which begins on a given line. -/
def Token.locate (line : Int) : List Segment → List Token
  | [] => []
  | s :: rest =>
    let later := Token.locate (line + newlines s.text) rest
    match s.kind with
    | .token kind => ⟨kind, String.ofList s.text, line⟩ :: later
    | _ => later

/-! ## Faults -/

/-- Why a text cannot be cut further. -/
inductive ScanFault where
  | unexpected (c : Char)
  | unterminatedString
  | emptyChar
  | longChar
  deriving DecidableEq, Repr

/-- The wording of a fault. -/
def ScanFault.message : ScanFault → String
  | .unexpected c => "Unexpected character '" ++ c.toString ++ "'"
  | .unterminatedString => "Unterminated string"
  | .emptyChar => "Empty char literal"
  | .longChar => "Unterminated or multi-character char literal"

/-- A fault and the line it is reported on. -/
structure ScanError where
  fault : ScanFault
  line : Int
  deriving DecidableEq, Repr

/-- The wording of an error. -/
def ScanError.message (e : ScanError) : String :=
  e.fault.message ++ " at line " ++ toString e.line

/-- The fault of a text at whose first character no rule applies, when it begins on a given line.
An unterminated string is reported on the last line. -/
def ScanError.of (line : Int) (c : Char) (cs : List Char) : ScanError :=
  if c = '"' then ⟨.unterminatedString, line + newlines cs⟩
  else if c = '\'' then
    match cs with
    | [] => ⟨.emptyChar, line⟩
    | x :: _ => if x = '\'' then ⟨.emptyChar, line⟩ else ⟨.longChar, line⟩
  else ⟨.unexpected c, line⟩

/-! ## Tokens of a text -/

/-- The tokens of a source text. -/
def tokenize (source : List Char) : Except ScanError TokenStream :=
  let (segments, rest) := Segment.scan source
  let line := 1 + newlines (segments.flatMap Segment.text)
  match rest with
  | [] => .ok ⟨Token.locate 1 segments, line⟩
  | c :: cs => .error (ScanError.of line c cs)

/-! ## Nothing is lost -/

/-- The segments and what is left over **make up the text**. -/
theorem Segment.scan_append (cs : List Char) :
    (Segment.scan cs).1.flatMap Segment.text ++ (Segment.scan cs).2 = cs := by
  fun_induction Segment.scan cs with
  | case1 => rfl
  | case2 => simp
  | case3 c cs kind n h segments rest hs ih =>
    rw [hs] at ih
    simp only [List.flatMap_cons, List.cons_append, List.append_assoc]
    rw [ih, List.take_append_drop]

end Scriptlet
