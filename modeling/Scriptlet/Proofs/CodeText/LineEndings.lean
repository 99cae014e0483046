import Mathlib
import Scriptlet.CodeText.Document

/-!
# Line endings and blank lines

A reader of code does not care how lines end or how much room is left between them.  Lines may end
with a carriage return before the line feed, and blank lines may stand anywhere after the header.
The code that is read is the same, and so is what is found wrong with it; only the line on which it
is found moves, by as many lines as were inserted before it.

Both changes are made to the text.  What they do to its lines is worked out first, and then what
reading makes of the lines, one by one.

## What is here

* `withReturns` — the text with a carriage return before every line feed.
* `BlankLines` — blank lines to be inserted; `BlankLines.insert` — the text with them.
* `BlankLines.shift` — an error on the line that its line has become.
* `readChars_withReturns`, `readChars_insert` — one change at a time.
* `read_respaced` — both.
-/

set_option autoImplicit false
namespace Scriptlet.CodeText

open Scriptlet.Text

/-! ## Carriage returns -/

/-- The text with a carriage return before every line feed. -/
def withReturns (text : List Char) : List Char :=
  text.flatMap fun c => if c = '\n' then ['\r', '\n'] else [c]

/-- The lines with a carriage return at the end of each but the last. -/
def addReturns : List (List Char) → List (List Char)
  | [] => []
  | [l] => [l]
  | l :: m :: ls => (l ++ ['\r']) :: addReturns (m :: ls)

theorem addReturns_cons_cons (c : Char) (l : List Char) (ls : List (List Char)) :
    ∃ l' ls', addReturns (l :: ls) = l' :: ls' ∧
      addReturns ((c :: l) :: ls) = (c :: l') :: ls' := by
  rcases ls with _ | ⟨m, ls⟩
  · exact ⟨l, [], rfl, rfl⟩
  · exact ⟨l ++ ['\r'], addReturns (m :: ls), rfl, rfl⟩

theorem lines_withReturns (text : List Char) :
    lines (withReturns text) = addReturns (lines text) := by
  induction text with
  | nil => rfl
  | cons c text ih =>
    obtain ⟨l, ls, hlines⟩ := List.exists_cons_of_ne_nil (lines_ne_nil text)
    by_cases hc : c = '\n'
    · have hfirst : lines (withReturns (c :: text)) = ['\r'] :: lines (withReturns text) := by
        rw [hc]
        exact lines_append (l := ['\r']) (by decide) (withReturns text)
      rw [hfirst, ih, lines, if_pos hc, hlines]
      rfl
    · obtain ⟨l', ls', hadd, hadd'⟩ := addReturns_cons_cons c l ls
      have hnext : withReturns (c :: text) = c :: withReturns text := by
        simp [withReturns, hc]
      rw [hnext, lines_cons_of_ne hc (ih.trans (hlines ▸ hadd)), lines_cons_of_ne hc hlines, hadd']

/-! ## Blank lines -/

/-- Blank lines to be inserted into a text: those that go after each of its lines.  Lines count
from 1. -/
structure BlankLines where
  after : Nat → List (List Char)
  blank : ∀ n, ∀ l ∈ after n, ∀ c ∈ l, isBlank c = true
  oneLine : ∀ n, ∀ l ∈ after n, '\n' ∉ l

namespace BlankLines

variable (b : BlankLines)

/-- The number of lines that are inserted before the line with a number. -/
def before (n : Nat) : Nat :=
  ∑ i ∈ Finset.Ico 1 n, (b.after i).length

/-- The lines from the line `n` of a text on, with blank lines after each. -/
def insertAfter : Nat → List (List Char) → List (List Char)
  | _, [] => []
  | n, l :: ls => l :: (b.after n ++ insertAfter (n + 1) ls)

/-- The text with blank lines after each of its lines. -/
def insert (text : List Char) : List Char :=
  unlines (b.insertAfter 1 (lines text))

/-- An error on the line that its line has become. -/
def shift (e : Error) : Error :=
  { e with line := e.line.map fun n => n + b.before n.toNat }

theorem before_one : b.before 1 = 0 := rfl

theorem before_succ {n : Nat} (hn : 1 ≤ n) : b.before (n + 1) = b.before n + (b.after n).length :=
  Finset.sum_Ico_succ_top hn _

/-- A line of the text with blank lines is a line of the text or one of the blank lines. -/
theorem mem_insertAfter {l : List Char} {n : Nat} {ls : List (List Char)}
    (h : l ∈ b.insertAfter n ls) : l ∈ ls ∨ ∃ i, l ∈ b.after i := by
  induction ls generalizing n with
  | nil => exact absurd h List.not_mem_nil
  | cons first ls ih =>
    rw [insertAfter, List.mem_cons, List.mem_append] at h
    rcases h with rfl | h | h
    · exact .inl List.mem_cons_self
    · exact .inr ⟨n, h⟩
    · exact (ih h).imp_left (List.mem_cons_of_mem first)

theorem lines_insert (text : List Char) :
    lines (b.insert text) = b.insertAfter 1 (lines text) := by
  refine lines_unlines ?_ fun l hl => ?_
  · obtain ⟨l, ls, hlines⟩ := List.exists_cons_of_ne_nil (lines_ne_nil text)
    rw [hlines]
    exact List.cons_ne_nil _ _
  · rcases b.mem_insertAfter hl with h | ⟨i, h⟩
    · exact not_mem_of_mem_lines h
    · exact b.oneLine i l h

end BlankLines

/-! ## Lines that are read alike -/

/-- Two lines that are read alike: the same but for one carriage return at the end, or both
blank. -/
def ReadAlike (l l' : List Char) : Prop :=
  dropReturn l = dropReturn l' ∨
    (dropReturn l).all isBlank = true ∧ (dropReturn l').all isBlank = true

/-- A line that may be given a carriage return: one that has none at its end, or that is blank. -/
def TakesReturn (l : List Char) : Prop :=
  l.getLast? ≠ some '\r' ∨ l.all isBlank = true

theorem dropReturn_of_ne {l : List Char} (h : l.getLast? ≠ some '\r') : dropReturn l = l :=
  if_neg h

theorem dropReturn_append_return (l : List Char) : dropReturn (l ++ ['\r']) = l := by
  rw [dropReturn, List.getLast?_concat, if_pos rfl, List.dropLast_concat]

theorem all_isBlank_dropReturn {l : List Char} (h : l.all isBlank = true) :
    (dropReturn l).all isBlank = true := by
  rw [List.all_eq_true] at h ⊢
  intro c hc
  rw [dropReturn] at hc
  split at hc
  · exact h c (List.dropLast_subset l hc)
  · exact h c hc

theorem TakesReturn.readAlike {l : List Char} (h : TakesReturn l) : ReadAlike (l ++ ['\r']) l := by
  rw [ReadAlike, dropReturn_append_return]
  rcases h with h | h
  · exact .inl (dropReturn_of_ne h).symm
  · exact .inr ⟨h, all_isBlank_dropReturn h⟩

theorem forall₂_addReturns {ls : List (List Char)} (h : ∀ l ∈ ls, TakesReturn l) :
    List.Forall₂ ReadAlike (addReturns ls) ls := by
  induction ls with
  | nil => exact .nil
  | cons l ls ih =>
    rw [List.forall_mem_cons] at h
    rcases ls with _ | ⟨m, ls⟩
    · exact .cons (.inl rfl) .nil
    · exact .cons h.1.readAlike (ih h.2)

/-- Lines that are read alike give the same instructions, or the same error on the same line. -/
theorem decodeAll_congr {ls ls' : List (List Char)} (h : List.Forall₂ ReadAlike ls ls')
    (number : Int) : decodeAll number ls = decodeAll number ls' := by
  induction h generalizing number with
  | nil => rfl
  | cons hl _ ih =>
    rw [decodeAll, decodeAll]
    rcases hl with hl | ⟨hl, hl'⟩
    · simp only [hl, ih]
    · simp only [hl, hl', if_true, ih]

theorem addReturns_tail (ls : List (List Char)) : (addReturns ls).tail = addReturns ls.tail := by
  rcases ls with _ | ⟨l, _ | ⟨m, ls⟩⟩ <;> rfl

/-- Of the carriage returns at the end of the first line one more makes no difference. -/
theorem hasHeader_addReturns (ls : List (List Char)) :
    hasHeader (addReturns ls) = hasHeader ls := by
  rcases ls with _ | ⟨l, _ | ⟨m, ls⟩⟩
  · rfl
  · rfl
  · simp [hasHeader, firstLine, addReturns]

/-- **Carriage returns make no difference** to a text whose lines take them. -/
theorem readChars_withReturns {text : List Char} (h : ∀ l ∈ lines text, TakesReturn l) :
    readChars (withReturns text) = readChars text := by
  have htail : List.Forall₂ ReadAlike (addReturns (lines text).tail) (lines text).tail :=
    forall₂_addReturns fun l hl => h l (List.mem_of_mem_tail hl)
  simp only [readChars, lines_withReturns, hasHeader_addReturns, addReturns_tail,
    decodeAll_congr htail]

/-! ## Reading past blank lines -/

theorem decodeAll_append_blank {bs : List (List Char)} (h : ∀ l ∈ bs, l.all isBlank = true)
    (number : Int) (rest : List (List Char)) :
    decodeAll number (bs ++ rest) = decodeAll (number + bs.length) rest := by
  induction bs generalizing number with
  | nil => simp
  | cons l bs ih =>
    rw [List.forall_mem_cons] at h
    rw [List.cons_append, decodeAll]
    simp only [all_isBlank_dropReturn h.1, if_true, ih h.2, List.length_cons]
    congr 1
    push_cast
    ring

namespace BlankLines

variable (b : BlankLines)

theorem all_isBlank_of_mem {n : Nat} {l : List Char} (h : l ∈ b.after n) : l.all isBlank = true :=
  List.all_eq_true.2 (b.blank n l h)

theorem decode_shift (line : List Char) (n : Nat) :
    decode line (n + b.before n : Nat) = (decode line n).mapError b.shift := by
  rcases h : decodeChars line with fault | i
  · simp [decode, h, Except.mapError, shift]
  · simp [decode, h, Except.mapError]

/-- The rest of a text with blank lines in it, read from the line that its first line has become. -/
theorem decodeAll_insertAfter {n : Nat} (hn : 1 ≤ n) (ls : List (List Char)) :
    decodeAll (n + b.before n : Nat) (b.insertAfter n ls) =
      (decodeAll n ls).mapError b.shift := by
  induction ls generalizing n with
  | nil => rfl
  | cons l ls ih =>
    -- The next line has moved by the blank lines after this one too.
    have hrest : decodeAll ((n + b.before n : Nat) + 1) (b.after n ++ b.insertAfter (n + 1) ls) =
        (decodeAll (n + 1) ls).mapError b.shift := by
      have hnext : ((n + b.before n : Nat) + 1 + (b.after n).length : Int) =
          (n + 1 + b.before (n + 1) : Nat) := by
        rw [b.before_succ hn]
        push_cast
        ring
      rw [decodeAll_append_blank (fun l => b.all_isBlank_of_mem), hnext, ih (by omega)]
      rfl
    rw [insertAfter, decodeAll, decodeAll]
    simp only [hrest, b.decode_shift]
    split
    · rfl
    · rcases decode (dropReturn l) n with e | i
      · rfl
      · rcases decodeAll (n + 1) ls with e | is <;> rfl

theorem hasHeader_insertAfter (n : Nat) (ls : List (List Char)) :
    hasHeader (b.insertAfter n ls) = hasHeader ls := by
  rcases ls with _ | ⟨l, ls⟩ <;> rfl

/-- **Blank lines make no difference** but to the line of an error. -/
theorem readChars_insert (text : List Char) :
    readChars (b.insert text) = (readChars text).mapError b.shift := by
  obtain ⟨l, ls, hlines⟩ := List.exists_cons_of_ne_nil (lines_ne_nil text)
  have htail : decodeAll 2 (b.insertAfter 1 (lines text)).tail =
      (decodeAll 2 (lines text).tail).mapError b.shift := by
    have hsecond : (2 + (b.after 1).length : Int) = (2 + b.before 2 : Nat) := by
      rw [b.before_succ le_rfl, b.before_one]
      push_cast
      ring
    rw [hlines, insertAfter, List.tail_cons, List.tail_cons,
      decodeAll_append_blank (fun l => b.all_isBlank_of_mem), hsecond,
      b.decodeAll_insertAfter (by decide)]
    rfl
  simp only [readChars, b.lines_insert, b.hasHeader_insertAfter, htail]
  split <;> rfl

/-- The lines of a text with blank lines take carriage returns if those of the text do. -/
theorem takesReturn_insert {text : List Char} (h : ∀ l ∈ lines text, TakesReturn l) :
    ∀ l ∈ lines (b.insert text), TakesReturn l := by
  intro l hl
  rw [b.lines_insert] at hl
  rcases b.mem_insertAfter hl with hl | ⟨i, hl⟩
  · exact h l hl
  · exact .inr (b.all_isBlank_of_mem hl)

end BlankLines

/-! ## Main result -/

/-- **Reading ignores line endings and blank lines.**  If no line of a text ends with a carriage
return, then carriage returns before all line feeds, blank lines after any of its lines, or both in
either order leave what is read as it is: the same instructions, or the same fault, on the line that
its line has become. -/
theorem read_respaced (text : String) (b : BlankLines)
    (h : ∀ l ∈ lines text.toList, l.getLast? ≠ some '\r') :
    read (.ofList (withReturns text.toList)) = read text ∧
    read (.ofList (b.insert text.toList)) = (read text).mapError b.shift ∧
    read (.ofList (withReturns (b.insert text.toList))) = (read text).mapError b.shift ∧
    read (.ofList (b.insert (withReturns text.toList))) = (read text).mapError b.shift := by
  have htakes : ∀ l ∈ lines text.toList, TakesReturn l := fun l hl => .inl (h l hl)
  simp only [read, String.toList_ofList]
  refine ⟨readChars_withReturns htakes, b.readChars_insert _, ?_, ?_⟩
  · rw [readChars_withReturns (b.takesReturn_insert htakes), b.readChars_insert]
  · rw [b.readChars_insert, readChars_withReturns htakes]

/-- An opcode that does not exist, three inserted lines further down: an empty one after the header,
and two after the line that follows it. -/
theorem read_respaced_unknown :
    let text := "#CPY_BYTECODE v1.0\nHALT\n\nPUSH 1 "
    ∃ b : BlankLines, b.after 1 = [[]] ∧ b.after 2 = [[' '], ['\t', '\r']] ∧
      (∀ l ∈ lines text.toList, l.getLast? ≠ some '\r') ∧
      read text = .error ⟨.unknownOpcode "PUSH".toList, some 4⟩ ∧
      read (.ofList (withReturns (b.insert text.toList))) =
        .error ⟨.unknownOpcode "PUSH".toList, some 7⟩ := by
  intro text
  have hreturn : ∀ l ∈ lines text.toList, l.getLast? ≠ some '\r' := by decide +kernel
  have hread : read text = .error ⟨.unknownOpcode "PUSH".toList, some 4⟩ := by decide +kernel
  let after (n : Nat) : List (List Char) :=
    if n = 1 then [[]] else if n = 2 then [[' '], ['\t', '\r']] else []
  have hblank : ∀ n, ∀ l ∈ after n, ∀ c ∈ l, isBlank c = true ∧ c ≠ '\n' := by
    intro n
    simp only [after]
    split
    · simp
    split
    · simp [isBlank, blankRanges]
    · simp
  let b : BlankLines := ⟨after, fun n l hl c hc => (hblank n l hl c hc).1,
    fun n l hl hc => (hblank n l hl _ hc).2 rfl⟩
  refine ⟨b, rfl, rfl, hreturn, hread, ?_⟩
  rw [(read_respaced text b hreturn).2.2.1, hread]
  rfl

end Scriptlet.CodeText
