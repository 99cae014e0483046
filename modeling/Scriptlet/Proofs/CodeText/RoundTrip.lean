import Mathlib
import Scriptlet.CodeText.Document

/-!
# Written code, read again

Writing fails on some instructions, and reading drops or refuses others.  This file says exactly
which: an instruction can be *written* if its operand keeps to its line, and a written instruction
is read again as it was if it is *complete*, with an operand exactly if its opcode takes one.
Nothing else matters, whatever blanks, quotes and escapes an operand holds.

## What is here

* `Instruction.Writable`, `Instruction.Complete` — the two conditions, both decidable.
* `encodeChars_eq` — an instruction has a line exactly if it is writable.
* `decodeChars_eq_ok_iff` — the line of an instruction is read as it was exactly if it is complete.
* `read_write_iff` — **the same for whole programs**, as text and as bytes.

A line that was written has no end of line in it, does not begin with a blank and is never empty; so
cutting the text at line feeds, dropping carriage returns and skipping blank lines find the same
lines again, and one empty line after the last line feed.
-/

set_option autoImplicit false
namespace Scriptlet

/-- An instruction whose operand keeps to its line: it has none, it is written with escapes, or it
has no line feed and no carriage return. -/
def Instruction.Writable (i : Instruction) : Prop :=
  i.opcode = .constString ∨ ∀ text ∈ i.operand, '\n' ∉ text.toList ∧ '\r' ∉ text.toList

instance (i : Instruction) : Decidable i.Writable :=
  inferInstanceAs (Decidable (_ ∨ ∀ text ∈ i.operand, _))

/-- An instruction that has an operand exactly if its opcode takes one. -/
def Instruction.Complete (i : Instruction) : Prop :=
  i.operand.isSome = i.opcode.takesOperand

instance (i : Instruction) : Decidable i.Complete :=
  inferInstanceAs (Decidable (_ = _))

/-- The name of an opcode is a word of capital letters and underscores. -/
theorem Opcode.name_ne_nil_and_capital (op : Opcode) :
    op.name.toList ≠ [] ∧ op.name.toList.all (fun c => 65 ≤ c.toNat && c.toNat ≤ 95) = true := by
  cases op with
  | unary op => cases op <;> decide
  | binary op => cases op <;> decide
  | _ => decide

theorem isBlank_of_capital {c : Char} (h : (65 ≤ c.toNat && c.toNat ≤ 95) = true) :
    Text.isBlank c = false := by
  rw [Bool.and_eq_true, decide_eq_true_eq, decide_eq_true_eq] at h
  rw [Text.isBlank, List.any_eq_false]
  simp only [Text.blankRanges, List.forall_mem_cons, Bool.and_eq_true, decide_eq_true_eq]
  refine ⟨?_, ?_, ?_, ?_, ?_, ?_, ?_, ?_, ?_, ?_, fun _ hr => absurd hr List.not_mem_nil⟩ <;> omega

theorem Opcode.isBlank_of_mem_name {op : Opcode} {c : Char} (h : c ∈ op.name.toList) :
    Text.isBlank c = false :=
  isBlank_of_capital (List.all_eq_true.1 op.name_ne_nil_and_capital.2 c h)

theorem Opcode.not_mem_name {b : Char} (h : Text.isBlank b = true) (op : Opcode) :
    b ∉ op.name.toList := by
  intro hb
  rw [Opcode.isBlank_of_mem_name hb] at h
  exact nomatch h

namespace CodeText

open Text

/-! ## One line -/

section Line

variable {i : Instruction}

/-- What follows the space in the line of an instruction with an operand. -/
def operandChars (op : Opcode) (text : String) : List Char :=
  if op = .constString then '"' :: (escape text.toList ++ ['"']) else text.toList

/-- The line of an instruction that has one. -/
def lineChars (i : Instruction) : List Char :=
  i.opcode.name.toList ++
    match i.operand with
    | none => []
    | some text => ' ' :: operandChars i.opcode text

/-- The error of an instruction without a line. -/
def unwritable (i : Instruction) : Error :=
  ⟨.lineBreak i.opcode (i.operand.getD ""), none⟩

/-- **Exactly the writable instructions have a line.** -/
theorem encodeChars_eq (i : Instruction) :
    encodeChars i = if i.Writable then .ok (lineChars i) else .error (unwritable i) := by
  obtain ⟨op, operand⟩ := i
  cases operand with
  | none => simp [encodeChars, Instruction.Writable, lineChars]
  | some text =>
    by_cases hop : op = .constString
    · simp [encodeChars, Instruction.Writable, lineChars, operandChars, hop]
    · have hbreak : text.toList.any isLineBreak = true ↔
          ¬('\n' ∉ text.toList ∧ '\r' ∉ text.toList) := by
        simp only [List.any_eq_true, isLineBreak, Bool.or_eq_true, decide_eq_true_eq]
        grind
      by_cases hw : '\n' ∉ text.toList ∧ '\r' ∉ text.toList
      · simp [encodeChars, Instruction.Writable, lineChars, operandChars, hop, hbreak, hw]
      · simp [encodeChars, Instruction.Writable, unwritable, hop, hbreak, hw]

/-- A line has no end of line in it. -/
theorem not_mem_lineChars {b : Char} (hb : b = '\n' ∨ b = '\r') (h : i.Writable) :
    b ∉ lineChars i := by
  have hblank : isBlank b = true := by rcases hb with rfl | rfl <;> decide
  have hspace : b ≠ ' ' := by rcases hb with rfl | rfl <;> decide
  have hquote : b ≠ '"' := by rcases hb with rfl | rfl <;> decide
  rw [lineChars, List.mem_append, not_or]
  refine ⟨i.opcode.not_mem_name hblank, ?_⟩
  cases hi : i.operand with
  | none => exact List.not_mem_nil
  | some text =>
    rw [List.mem_cons, not_or, operandChars]
    refine ⟨hspace, ?_⟩
    by_cases hop : i.opcode = .constString
    · simp [hop, hquote, not_mem_escape hb]
    · rw [if_neg hop]
      have hw := (h.resolve_left hop) text hi
      rcases hb with rfl | rfl
      · exact hw.1
      · exact hw.2

/-- A line begins with a character that is not blank. -/
theorem exists_lineChars_eq_cons (i : Instruction) :
    ∃ c cs, lineChars i = c :: cs ∧ isBlank c = false := by
  obtain ⟨c, cs, hname⟩ := List.exists_cons_of_ne_nil i.opcode.name_ne_nil_and_capital.1
  rw [lineChars, hname, List.cons_append]
  exact ⟨c, _, rfl, Opcode.isBlank_of_mem_name (hname ▸ List.mem_cons_self)⟩

theorem all_isBlank_lineChars (i : Instruction) : (lineChars i).all isBlank = false := by
  obtain ⟨c, cs, hline, hc⟩ := exists_lineChars_eq_cons i
  simp [hline, hc]

theorem dropReturn_lineChars (h : i.Writable) : dropReturn (lineChars i) = lineChars i := by
  refine if_neg fun hlast => ?_
  exact not_mem_lineChars (.inr rfl) h (List.mem_of_getLast? hlast)

/-! ### Taking a line apart -/

theorem cutAtSpace_append {name : List Char} (h : ' ' ∉ name) (rest : List Char) :
    cutAtSpace (name ++ ' ' :: rest) = (name, some rest) := by
  induction name with
  | nil => simp [cutAtSpace]
  | cons c name ih =>
    rw [List.mem_cons, not_or] at h
    rw [List.cons_append, cutAtSpace, if_neg (Ne.symm h.1), ih h.2]

theorem cutAtSpace_of_not_mem {name : List Char} (h : ' ' ∉ name) :
    cutAtSpace name = (name, none) := by
  induction name with
  | nil => rfl
  | cons c name ih =>
    rw [List.mem_cons, not_or] at h
    rw [cutAtSpace, if_neg (Ne.symm h.1), ih h.2]

/-- A line is cut where its parts were put together. -/
theorem cutAtSpace_lineChars (i : Instruction) :
    cutAtSpace (lineChars i) =
      (i.opcode.name.toList, i.operand.map (operandChars i.opcode)) := by
  have hspace : ' ' ∉ i.opcode.name.toList := i.opcode.not_mem_name (by decide)
  rw [lineChars]
  cases i.operand with
  | none => rw [List.append_nil, cutAtSpace_of_not_mem hspace]; rfl
  | some text => exact cutAtSpace_append hspace _

/-- Reading a line comes down to reading its operand. -/
theorem decodeChars_lineChars (i : Instruction) :
    decodeChars (lineChars i) =
      decodeOperand i.opcode (i.operand.map (operandChars i.opcode)) := by
  obtain ⟨c, cs, hline, hc⟩ := exists_lineChars_eq_cons i
  have htrim : trimStart isBlank (lineChars i) = lineChars i := by
    rw [trimStart, hline, List.dropWhile_cons_of_neg (by simp [hc])]
  rw [decodeChars, htrim, cutAtSpace_lineChars]
  simp only [String.ofList_toList, Opcode.ofName?_name]

theorem decodeString_operandChars (text : String) :
    decodeString (operandChars .constString text) = .ok ⟨.constString, some text⟩ := by
  have hquotes : betweenQuotes? (operandChars .constString text) = some (escape text.toList) := by
    simp [operandChars, betweenQuotes?]
  rw [decodeString, hquotes]
  simp only [unescape_escape, Except.map, String.ofList_toList]

/-- **The line of an instruction is read as it was exactly if the instruction is complete.** -/
theorem decodeChars_eq_ok_iff (i : Instruction) :
    decodeChars (lineChars i) = .ok i ↔ i.Complete := by
  rw [decodeChars_lineChars]
  obtain ⟨op, operand⟩ := i
  cases operand with
  | none => cases hop : op.takesOperand <;> simp [decodeOperand, Instruction.Complete, hop]
  | some text =>
    cases hop : op.takesOperand with
    | true =>
      have hread : decodeOperand op (some (operandChars op text)) = .ok ⟨op, some text⟩ := by
        by_cases hstring : op = .constString
        · rw [hstring]
          exact decodeString_operandChars text
        · simp [decodeOperand, hop, hstring, operandChars]
      simp [Option.map_some, hread, Instruction.Complete, hop]
    | false =>
      -- what is read, if anything, has lost the operand
      simp only [Option.map_some, decodeOperand, hop, Instruction.Complete, Bool.false_eq_true,
        if_false]
      split <;> simp

end Line

/-! ## Whole programs -/

/-- The text of a program whose instructions can all be written. -/
def programChars (program : List Instruction) : List Char :=
  (header.toList :: program.map lineChars).flatMap (· ++ ['\n'])

theorem encodeAll_eq (program : List Instruction) :
    encodeAll program =
      match program.find? (fun i => ¬i.Writable) with
      | none => .ok (program.map lineChars)
      | some i => .error (unwritable i) := by
  induction program with
  | nil => rfl
  | cons i program ih =>
    rw [encodeAll, encodeChars_eq, ih]
    by_cases hi : i.Writable
    · rw [if_pos hi, List.find?_cons_of_neg (by simpa using hi)]
      cases program.find? (fun i => ¬i.Writable) <;> rfl
    · rw [if_neg hi, List.find?_cons_of_pos (by simpa using hi)]
      rfl

/-- Writing gives the text, or stops at the first instruction that cannot be written. -/
theorem writeChars_eq (program : List Instruction) :
    writeChars program =
      match program.find? (fun i => ¬i.Writable) with
      | none => .ok (programChars program)
      | some i => .error (unwritable i) := by
  rw [writeChars, encodeAll_eq]
  cases program.find? (fun i => ¬i.Writable) <;> rfl

theorem lines_programChars {program : List Instruction} (h : ∀ i ∈ program, i.Writable) :
    lines (programChars program) = header.toList :: (program.map lineChars ++ [[]]) := by
  rw [programChars, lines_flatMap, List.cons_append]
  rw [List.forall_mem_cons, List.forall_mem_map]
  exact ⟨by decide, fun i hi => not_mem_lineChars (.inl rfl) (h i hi)⟩

/-- One more line that was written. -/
theorem decodeAll_lineChars_cons {i : Instruction} (h : i.Writable) (number : Int)
    (rest : List (List Char)) :
    decodeAll number (lineChars i :: rest) = (do
      let i' ← decode (lineChars i) number
      let is ← decodeAll (number + 1) rest
      return i' :: is) := by
  rw [decodeAll, dropReturn_lineChars h]
  simp only [all_isBlank_lineChars, Bool.false_eq_true, if_false]

theorem decodeAll_eq_ok_iff {program : List Instruction} (h : ∀ i ∈ program, i.Writable)
    (number : Int) :
    decodeAll number (program.map lineChars ++ [[]]) = .ok program ↔ ∀ i ∈ program, i.Complete := by
  induction program generalizing number with
  | nil => simp [decodeAll, dropReturn]
  | cons i program ih =>
    rw [List.forall_mem_cons] at h
    rw [List.map_cons, List.cons_append, decodeAll_lineChars_cons h.1, List.forall_mem_cons,
      ← decodeChars_eq_ok_iff, ← ih h.2 (number + 1), decode]
    cases decodeChars (lineChars i) with
    | error e => simp [Except.mapError, bind, Except.bind]
    | ok i' =>
      cases decodeAll (number + 1) (program.map lineChars ++ [[]]) <;>
        simp [Except.mapError, bind, Except.bind, pure, Except.pure]

theorem readChars_programChars_iff {program : List Instruction} (h : ∀ i ∈ program, i.Writable) :
    readChars (programChars program) = .ok program ↔ ∀ i ∈ program, i.Complete := by
  have hheader (ls : List (List Char)) : hasHeader (header.toList :: ls) = true := by
    simp only [hasHeader, firstLine, List.headD_cons]
    decide
  rw [readChars, lines_programChars h]
  simp only [hheader, if_true, List.tail_cons]
  exact decodeAll_eq_ok_iff h 2

theorem find?_unwritable_eq_none_iff {program : List Instruction} :
    program.find? (fun i => ¬i.Writable) = none ↔ ∀ i ∈ program, i.Writable := by
  simp

theorem write_eq (program : List Instruction) :
    write program =
      match program.find? (fun i => ¬i.Writable) with
      | none => .ok (String.ofList (programChars program))
      | some i => .error (unwritable i) := by
  rw [write, writeChars_eq]
  cases program.find? (fun i => ¬i.Writable) <;> rfl

theorem serialize_eq (program : List Instruction) :
    serialize program =
      match program.find? (fun i => ¬i.Writable) with
      | none => .ok (String.ofList (programChars program)).toUTF8
      | some i => .error (unwritable i) := by
  rw [serialize, write_eq]
  cases program.find? (fun i => ¬i.Writable) <;> rfl

theorem write_eq_ok_iff {program : List Instruction} {text : String} :
    write program = .ok text ↔
      (∀ i ∈ program, i.Writable) ∧ text = String.ofList (programChars program) := by
  rw [write_eq, ← find?_unwritable_eq_none_iff]
  cases program.find? (fun i => ¬i.Writable) with
  | none => simp only [Except.ok.injEq, true_and, eq_comm]
  | some i => simp

theorem serialize_eq_ok_iff {program : List Instruction} {bytes : ByteArray} :
    serialize program = .ok bytes ↔
      (∀ i ∈ program, i.Writable) ∧ bytes = (String.ofList (programChars program)).toUTF8 := by
  rw [serialize_eq, ← find?_unwritable_eq_none_iff]
  cases program.find? (fun i => ¬i.Writable) with
  | none => simp only [Except.ok.injEq, true_and, eq_comm]
  | some i => simp

theorem read_ofList_programChars_iff {program : List Instruction}
    (h : ∀ i ∈ program, i.Writable) :
    read (String.ofList (programChars program)) = .ok program ↔ ∀ i ∈ program, i.Complete := by
  rw [read, String.toList_ofList, readChars_programChars_iff h]

theorem deserialize_toUTF8 (text : String) : deserialize text.toUTF8 = read text := by
  rw [deserialize, decodeText, Utf8.decode_toUTF8]
  rfl

/-! ## Listings -/

/-- The lines of a listing of instructions that can all be written. -/
def numbered (number : Nat) : List Instruction → List String
  | [] => []
  | i :: is => (column number ++ "  " ++ String.ofList (lineChars i)) :: numbered (number + 1) is

theorem listingLines_eq (program : List Instruction) (number : Nat) :
    listingLines number program =
      match program.find? (fun i => ¬i.Writable) with
      | none => .ok (numbered number program)
      | some i => .error (unwritable i) := by
  induction program generalizing number with
  | nil => rfl
  | cons i program ih =>
    rw [listingLines, encode, encodeChars_eq, ih]
    by_cases hi : i.Writable
    · rw [if_pos hi, List.find?_cons_of_neg (by simpa using hi)]
      cases program.find? (fun i => ¬i.Writable) <;> rfl
    · rw [if_neg hi, List.find?_cons_of_pos (by simpa using hi)]
      rfl

/-- A program has a listing exactly if it can be written. -/
theorem listing_eq (program : List Instruction) :
    listing program =
      match program.find? (fun i => ¬i.Writable) with
      | none => .ok (String.intercalate "\n" (numbered 0 program))
      | some i => .error (unwritable i) := by
  rw [listing, listingLines_eq]
  cases program.find? (fun i => ¬i.Writable) <;> rfl

/-! ## Main result -/

/-- **What can be written, and what is read again.**  A program can be written exactly if each of
its instructions can; and what was written is read as it was exactly if each instruction has an
operand just when its opcode takes one.  The same holds of its bytes. -/
theorem read_write_iff (program : List Instruction) :
    ((∃ text, write program = .ok text) ↔ ∀ i ∈ program, i.Writable) ∧
    (∀ text, write program = .ok text →
      (read text = .ok program ↔ ∀ i ∈ program, i.Complete)) ∧
    ((∃ bytes, serialize program = .ok bytes) ↔ ∀ i ∈ program, i.Writable) ∧
    ∀ bytes, serialize program = .ok bytes →
      (deserialize bytes = .ok program ↔ ∀ i ∈ program, i.Complete) := by
  refine ⟨?_, fun text htext => ?_, ?_, fun bytes hbytes => ?_⟩
  · simp [write_eq_ok_iff]
  · obtain ⟨h, rfl⟩ := write_eq_ok_iff.1 htext
    exact read_ofList_programChars_iff h
  · simp [serialize_eq_ok_iff]
  · obtain ⟨h, rfl⟩ := serialize_eq_ok_iff.1 hbytes
    rw [deserialize_toUTF8]
    exact read_ofList_programChars_iff h

end CodeText

end Scriptlet
