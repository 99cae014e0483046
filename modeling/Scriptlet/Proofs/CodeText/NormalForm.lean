import Scriptlet.Proofs.CodeText.RoundTrip

/-!
# Read code, written again

Reading is more lenient than writing: lines may end with a carriage return or be blank, blanks may
stand before an opcode and after one that takes no operand, and quotes may hold characters that
writing would escape.  None of this is in the code that was read, so writing that code again gives
the text in its normal form, which reads as the same code.

There is one exception.  A carriage return inside an operand, or a second one at the end of a line,
is read as part of the operand; but writing refuses every operand that is not between quotes and has
an end of line in it.

* `Instruction.HoldsReturn` — the exception.
* `complete_of_read`, `writable_iff_of_read` — what reading guarantees of each instruction.
* `read_write_of_read`, `write_error_of_read` — the two cases for whole programs.
-/

set_option autoImplicit false
namespace Scriptlet

/-- An instruction with a carriage return in an operand that is written as it is. -/
def Instruction.HoldsReturn (i : Instruction) : Prop :=
  i.opcode ≠ .constString ∧ ∃ text ∈ i.operand, '\r' ∈ text.toList

instance (i : Instruction) : Decidable i.HoldsReturn :=
  inferInstanceAs (Decidable (_ ∧ ∃ text ∈ i.operand, _))

namespace CodeText

open Text

/-! ## One line -/

theorem eq_append_of_cutAtSpace {line name operand : List Char}
    (h : cutAtSpace line = (name, some operand)) : line = name ++ ' ' :: operand := by
  induction line generalizing name with
  | nil => simp [cutAtSpace] at h
  | cons c line ih =>
    by_cases hc : c = ' '
    · obtain ⟨rfl, rfl⟩ : [] = name ∧ line = operand := by simpa [cutAtSpace, hc] using h
      rw [hc, List.nil_append]
    · rw [cutAtSpace, if_neg hc] at h
      obtain ⟨rfl, hoperand⟩ : c :: (cutAtSpace line).1 = name ∧
          (cutAtSpace line).2 = some operand := by simpa using h
      rw [List.cons_append, ← ih (Prod.ext rfl hoperand)]

theorem decodeString_eq_ok {operand : List Char} {i : Instruction}
    (h : decodeString operand = .ok i) : i.opcode = .constString ∧ i.operand.isSome := by
  rw [decodeString] at h
  split at h
  · cases h
  · next inner _ =>
    cases hinner : unescape inner with
    | error e => simp [hinner, Except.map] at h
    | ok s =>
      obtain rfl : _ = i := by simpa [hinner, Except.map] using h
      exact ⟨rfl, rfl⟩

/-- What is read after an opcode is an instruction of that opcode, complete, and with the operand as
it stands there if it stands there without quotes. -/
theorem decodeOperand_eq_ok {opcode : Opcode} {operand : Option (List Char)} {i : Instruction}
    (h : decodeOperand opcode operand = .ok i) :
    i.Complete ∧ (i.opcode ≠ .constString → ∀ text ∈ i.operand, operand = some text.toList) := by
  rw [decodeOperand.eq_def] at h
  split at h
  · cases hop : opcode.takesOperand with
    | true => simp [hop] at h
    | false =>
      obtain rfl : _ = i := by simpa [hop] using h
      exact ⟨hop.symm, fun _ _ ht => nomatch ht⟩
  · next text =>
    cases hop : opcode.takesOperand with
    | true =>
      by_cases hstring : opcode = .constString
      · rw [hop, if_pos rfl, if_pos hstring] at h
        obtain ⟨hopcode, hsome⟩ := decodeString_eq_ok h
        refine ⟨?_, fun hne => absurd hopcode hne⟩
        rw [Instruction.Complete, hsome, hopcode]
        rfl
      · obtain rfl : _ = i := by simpa [hop, hstring] using h
        refine ⟨hop.symm, fun _ t ht => ?_⟩
        rw [← Option.some.inj ht, String.toList_ofList]
    | false =>
      rw [hop, if_neg Bool.false_ne_true] at h
      split at h
      · obtain rfl : _ = i := Except.ok.inj h
        exact ⟨hop.symm, fun _ _ ht => nomatch ht⟩
      · cases h

/-- **What is read from a line** is complete, and an operand without quotes is part of the line. -/
theorem decodeChars_eq_ok {line : List Char} {i : Instruction} (h : decodeChars line = .ok i) :
    i.Complete ∧
      (i.opcode ≠ .constString → ∀ text ∈ i.operand, ∀ c ∈ text.toList, c ∈ line) := by
  rw [decodeChars] at h
  cases hname : Opcode.ofName? (String.ofList (cutAtSpace (trimStart isBlank line)).1) with
  | none => simp [hname] at h
  | some opcode =>
    simp only [hname] at h
    obtain ⟨hcomplete, hoperand⟩ := decodeOperand_eq_ok h
    refine ⟨hcomplete, fun hstring text htext c hc => ?_⟩
    have hcut := eq_append_of_cutAtSpace (Prod.ext rfl (hoperand hstring text htext))
    apply (List.dropWhile_sublist isBlank).mem
    rw [← trimStart, hcut]
    exact List.mem_append_right _ (List.mem_cons_of_mem _ hc)

/-! ## Whole programs -/

/-- Every instruction that was read has a line of its own. -/
theorem exists_line_of_decodeAll {number : Int} {ls : List (List Char)}
    {program : List Instruction} (h : decodeAll number ls = .ok program) {i : Instruction}
    (hi : i ∈ program) : ∃ raw ∈ ls, decodeChars (dropReturn raw) = .ok i := by
  induction ls generalizing number program with
  | nil =>
    obtain rfl : [] = program := Except.ok.inj h
    exact absurd hi List.not_mem_nil
  | cons raw ls ih =>
    have hlater {n : Int} {later : List Instruction} (hl : decodeAll n ls = .ok later)
        (hi : i ∈ later) : ∃ raw' ∈ raw :: ls, decodeChars (dropReturn raw') = .ok i := by
      obtain ⟨raw', hraw', hline⟩ := ih hl hi
      exact ⟨raw', List.mem_cons_of_mem raw hraw', hline⟩
    rw [decodeAll] at h
    split at h
    · exact hlater h hi
    · cases hline : decodeChars (dropReturn raw) with
      | error e => simp [decode, hline, Except.mapError, bind, Except.bind] at h
      | ok first =>
        cases hl : decodeAll (number + 1) ls with
        | error e => simp [decode, hline, hl, Except.mapError, bind, Except.bind] at h
        | ok later =>
          obtain rfl : first :: later = program := by
            simpa [decode, hline, hl, Except.mapError, bind, Except.bind, pure, Except.pure]
              using h
          rcases List.mem_cons.1 hi with rfl | hi
          · exact ⟨raw, List.mem_cons_self, hline⟩
          · exact hlater hl hi

theorem exists_line_of_read {text : String} {program : List Instruction}
    (h : read text = .ok program) {i : Instruction} (hi : i ∈ program) :
    ∃ line, '\n' ∉ line ∧ decodeChars line = .ok i := by
  rw [read, readChars] at h
  split at h
  · obtain ⟨raw, hraw, hline⟩ := exists_line_of_decodeAll h hi
    refine ⟨dropReturn raw, fun hfeed => ?_, hline⟩
    have hsub : dropReturn raw ⊆ raw := by
      rw [dropReturn]
      split
      · exact List.dropLast_subset raw
      · exact List.Subset.refl raw
    exact not_mem_of_mem_lines (List.mem_of_mem_tail hraw) (hsub hfeed)
  · cases h

section Read

variable {text : String} {program : List Instruction} (h : read text = .ok program)
include h

theorem complete_of_read : ∀ i ∈ program, i.Complete := by
  intro i hi
  obtain ⟨line, -, hline⟩ := exists_line_of_read h hi
  exact (decodeChars_eq_ok hline).1

/-- Of the two ends of lines only the carriage return can get into an operand. -/
theorem writable_iff_of_read {i : Instruction} (hi : i ∈ program) :
    i.Writable ↔ ¬i.HoldsReturn := by
  obtain ⟨line, hfeed, hline⟩ := exists_line_of_read h hi
  have hoperand := (decodeChars_eq_ok hline).2
  rw [Instruction.Writable, Instruction.HoldsReturn]
  constructor
  · rintro (hstring | hw) ⟨hne, t, ht, hreturn⟩
    · exact hne hstring
    · exact (hw t ht).2 hreturn
  · intro hno
    by_cases hstring : i.opcode = .constString
    · exact .inl hstring
    · refine .inr fun t ht => ⟨fun hc => hfeed (hoperand hstring t ht _ hc), fun hc => ?_⟩
      exact hno ⟨hstring, t, ht, hc⟩

theorem find?_unwritable_of_read :
    program.find? (fun i => ¬i.Writable) = program.find? (fun i => i.HoldsReturn) := by
  refine List.find?_congr fun i hi => decide_eq_decide.2 ?_
  rw [writable_iff_of_read h hi, Decidable.not_not]

/-- **Code that was read can be written again**, and reads as the same code, if no operand without
quotes holds a carriage return. -/
theorem read_write_of_read (hreturn : ∀ i ∈ program, ¬i.HoldsReturn) :
    ∃ normal, write program = .ok normal ∧ read normal = .ok program := by
  have hwritable : ∀ i ∈ program, i.Writable := fun i hi =>
    (writable_iff_of_read h hi).2 (hreturn i hi)
  exact ⟨_, write_eq_ok_iff.2 ⟨hwritable, rfl⟩,
    (read_ofList_programChars_iff hwritable).2 (complete_of_read h)⟩

theorem listing_of_read (hreturn : ∀ i ∈ program, ¬i.HoldsReturn) :
    ∃ lines, listing program = .ok lines := by
  have hnone : program.find? (fun i => ¬i.Writable) = none :=
    find?_unwritable_eq_none_iff.2 fun i hi => (writable_iff_of_read h hi).2 (hreturn i hi)
  exact ⟨_, by rw [listing_eq, hnone]⟩

/-- Otherwise neither the code nor its listing can be written, and both stop at the first such
operand. -/
theorem write_error_of_read {i : Instruction}
    (hi : program.find? (fun i => i.HoldsReturn) = some i) :
    write program = .error (unwritable i) ∧ listing program = .error (unwritable i) := by
  rw [write_eq, listing_eq, find?_unwritable_of_read h, hi]
  exact ⟨rfl, rfl⟩

end Read

end CodeText

end Scriptlet
