import Scriptlet.CodeText.FormatError

/-!
# Escaped strings

Strings are written between double quotes.  So that a string stays on its line and ends where it
should, five characters are written as a backslash and a letter or mark: the backslash, the double
quote, line feed, carriage return and tab.  Main statement: reading an escaped string gives the
string back (`unescape_escape`).
-/

set_option autoImplicit false
namespace Scriptlet.CodeText

/-- A character as it is written between quotes. -/
def escapeChar (c : Char) : List Char :=
  if c = '\\' then ['\\', '\\']
  else if c = '"' then ['\\', '"']
  else if c = '\n' then ['\\', 'n']
  else if c = '\r' then ['\\', 'r']
  else if c = '\t' then ['\\', 't']
  else [c]

/-- A string as it is written between quotes. -/
def escape (cs : List Char) : List Char :=
  cs.flatMap escapeChar

/-- The character that a letter or mark after a backslash stands for. -/
def escaped? (c : Char) : Option Char :=
  if c = '\\' then some '\\'
  else if c = '"' then some '"'
  else if c = 'n' then some '\n'
  else if c = 'r' then some '\r'
  else if c = 't' then some '\t'
  else none

/-- The string of its written form. -/
def unescape : List Char → Except Fault (List Char)
  | [] => .ok []
  | '\\' :: cs =>
    match cs with
    | [] => .error .danglingEscape
    | c :: rest =>
      match escaped? c with
      | none => .error (.unknownEscape c)
      | some d => (unescape rest).map (d :: ·)
  | c :: cs => (unescape cs).map (c :: ·)

@[simp] theorem escape_nil : escape [] = [] := rfl

@[simp] theorem escape_cons (c : Char) (cs : List Char) :
    escape (c :: cs) = escapeChar c ++ escape cs := rfl

/-- A character written and read again, whatever follows it. -/
theorem unescape_escapeChar_append (c : Char) (rest : List Char) :
    unescape (escapeChar c ++ rest) = (unescape rest).map (c :: ·) := by
  unfold escapeChar
  split
  · simp_all [unescape, escaped?]
  split
  · simp_all [unescape, escaped?]
  split
  · simp_all [unescape, escaped?]
  split
  · simp_all [unescape, escaped?]
  split
  · simp_all [unescape, escaped?]
  · rw [List.singleton_append, unescape]
    simp_all

/-- Reading **undoes writing**. -/
theorem unescape_escape (cs : List Char) : unescape (escape cs) = .ok cs := by
  induction cs with
  | nil => rfl
  | cons c cs ih => rw [escape_cons, unescape_escapeChar_append, ih]; rfl

/-- What is written has **no ends of lines**. -/
theorem not_mem_escape {b : Char} (h : b = '\n' ∨ b = '\r') (cs : List Char) : b ∉ escape cs := by
  induction cs with
  | nil => exact List.not_mem_nil
  | cons c cs ih =>
    rw [escape_cons, List.mem_append, not_or]
    refine ⟨?_, ih⟩
    rcases h with rfl | rfl <;> grind [escapeChar]

end Scriptlet.CodeText
