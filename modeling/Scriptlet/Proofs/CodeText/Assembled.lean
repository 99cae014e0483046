import Scriptlet.Build
import Scriptlet.Proofs.CodeText.RoundTrip
import Scriptlet.Proofs.Composition
import Scriptlet.Proofs.Decimal.RoundTrip
import Scriptlet.Proofs.Grammar.Names

/-!
# Which programs can be written and read again

Code that was built from text is always complete, so all that can go wrong is that it cannot be
written.  The operands of built code are names, numbers, counts, targets, truth values, strings and
characters.  Strings are written with escapes, and all others but characters are free of ends of
lines.  A character constant may be an end of line, since between quotes any character may stand;
and it is written as it is.

* `Origin.complete` — assembled instructions have an operand exactly if their opcode takes one.
* `Origin.writable_or` — an assembled instruction with names that are words can be written, unless
  it is the constant of an end of line.
* `deserialize_serialize_build` — **the programs that survive**.
-/

set_option autoImplicit false
namespace Scriptlet

open CodeText

/-! ## Operands without ends of lines -/

/-- A text without ends of lines. -/
def Unbroken (text : String) : Prop :=
  '\n' ∉ text.toList ∧ '\r' ∉ text.toList

theorem unbroken_of_forall {p : Char → Prop} {text : String} (h : ∀ c ∈ text.toList, p c)
    (hfeed : ¬p '\n') (hreturn : ¬p '\r') : Unbroken text :=
  ⟨fun hc => hfeed (h _ hc), fun hc => hreturn (h _ hc)⟩

theorem unbroken_of_isWordPart {text : String} (h : ∀ c ∈ text.toList, isWordPart c = true) :
    Unbroken text :=
  unbroken_of_forall h (by decide) (by decide)

theorem unbroken_write (x : Float) : Unbroken (Decimal.write x) :=
  unbroken_of_forall (Decimal.plain_write x) (by decide) (by decide)

theorem unbroken_toString (n : Nat) : Unbroken (toString n) := by
  refine unbroken_of_forall (p := fun c => c.isDigit = true) ?_ (by decide) (by decide)
  rw [Nat.toString_eq_ofList_toDigits, String.toList_ofList]
  exact Decimal.digits_toDigits n

theorem Unbroken.writable {op : Opcode} {text : String} (h : Unbroken text) :
    Instruction.Writable ⟨op, some text⟩ :=
  .inr fun _ ht => Option.some.inj ht ▸ h

/-! ## Assembled instructions -/

/-- A constant that is an end of line. -/
def Literal.IsLineBreak (v : Literal) : Prop :=
  ∃ c, isLineBreak c = true ∧ v = .char c

/-- A constant can be written exactly if it is not an end of line. -/
theorem Literal.writable_code_iff (v : Literal) : v.code.Writable ↔ ¬v.IsLineBreak := by
  cases v with
  | null => simp [Literal.code, Instruction.Writable, Literal.IsLineBreak]
  | bool b => cases b <;> simp [Literal.code, Instruction.Writable, Literal.IsLineBreak]
  | number x =>
    refine iff_of_true (unbroken_write x).writable ?_
    simp [Literal.IsLineBreak]
  | string s => simp [Literal.code, Instruction.Writable, Literal.IsLineBreak]
  | char c =>
    have hbreak : Literal.IsLineBreak (.char c) ↔ c = '\n' ∨ c = '\r' := by
      simp [Literal.IsLineBreak, isLineBreak]
    rw [hbreak, not_or]
    simp [Literal.code, Instruction.Writable, eq_comm]

section Origin

variable {es : List Event} {vs : List Literal} {i : Instruction}

/-- Assembled instructions are complete. -/
theorem Origin.complete (h : Origin es vs i) : i.Complete := by
  cases h with
  | @literal v _ => cases v <;> rfl
  | always => rfl
  | name hop _ => exact (Opcode.takesOperand_of_takesName hop).symm
  | jump hop t => exact (Opcode.takesOperand_of_isJump hop).symm
  | count n => rfl
  | plain hop => exact hop.symm

/-- An assembled instruction with unbroken names can be written, or it is the constant of an end of
line. -/
theorem Origin.writable_or (h : Origin es vs i)
    (hnames : Names (fun name => ∀ c ∈ name.toList, isWordPart c = true) es) :
    i.Writable ∨ ∃ c, isLineBreak c = true ∧ .char c ∈ vs ∧ i = Literal.code (.char c) := by
  cases h with
  | @literal v hv =>
    by_cases hbreak : v.IsLineBreak
    · obtain ⟨c, hc, rfl⟩ := hbreak
      exact .inr ⟨c, hc, hv, rfl⟩
    · exact .inl ((v.writable_code_iff).2 hbreak)
  | always => exact .inl (by decide)
  | name _ he => exact .inl (unbroken_of_isWordPart (hnames _ he)).writable
  | jump _ t => exact .inl (unbroken_toString t).writable
  | count n => exact .inl (unbroken_toString n).writable
  | plain _ => exact .inl (.inr fun _ ht => nomatch ht)

end Origin

/-! ## Built programs -/

theorem writable_or_of_build [Limits] {source : List Char} {b : Build} (h : build source = .ok b)
    {i : Instruction} (hi : i ∈ b.code) :
    i.Writable ∨ ∃ c, isLineBreak c = true ∧ .char c ∈ Stmt.literalsAll b.statements ∧
      i = Literal.code (.char c) := by
  obtain ⟨tokens, statements, htokens, hparse, -, rfl⟩ := build_eq_ok_iff.1 h
  exact (madeOf_assemble statements i hi).writable_or (isWordPart_of_parse htokens hparse)

theorem complete_of_build [Limits] {source : List Char} {b : Build} (h : build source = .ok b)
    {i : Instruction} (hi : i ∈ b.code) : i.Complete := by
  obtain ⟨tokens, statements, -, -, -, rfl⟩ := build_eq_ok_iff.1 h
  exact (madeOf_assemble statements i hi).complete

theorem mem_code_of_build [Limits] {source : List Char} {b : Build} (h : build source = .ok b)
    {v : Literal} (hv : v ∈ Stmt.literalsAll b.statements) : v.code ∈ b.code := by
  obtain ⟨tokens, statements, -, -, -, rfl⟩ := build_eq_ok_iff.1 h
  exact code_mem_assemble hv

/-- Without a constant for an end of line all of a built program can be written. -/
theorem writable_of_build [Limits] {source : List Char} {b : Build} (h : build source = .ok b)
    (hchars : ∀ c, .char c ∈ Stmt.literalsAll b.statements → isLineBreak c = false) :
    ∀ i ∈ b.code, i.Writable := by
  intro i hi
  refine (writable_or_of_build h hi).resolve_right ?_
  rintro ⟨c, hc, hmem, -⟩
  exact nomatch hc.symm.trans (hchars c hmem)

/-- With one, the first instruction that cannot be written is such a constant. -/
theorem find?_unwritable_of_build [Limits] {source : List Char} {b : Build}
    (h : build source = .ok b)
    (hchars : ∃ c, isLineBreak c = true ∧ .char c ∈ Stmt.literalsAll b.statements) :
    ∃ c, isLineBreak c = true ∧ .char c ∈ Stmt.literalsAll b.statements ∧
      b.code.find? (fun i => ¬i.Writable) = some (Literal.code (.char c)) := by
  obtain ⟨c, hc, hmem⟩ := hchars
  have hnot : ¬(Literal.code (.char c)).Writable := fun hw =>
    (Literal.writable_code_iff _).1 hw ⟨c, hc, rfl⟩
  cases hfind : b.code.find? (fun i => ¬i.Writable) with
  | none => exact absurd (find?_unwritable_eq_none_iff.1 hfind _ (mem_code_of_build h hmem)) hnot
  | some i =>
    have hi : ¬i.Writable := by simpa using List.find?_some hfind
    obtain ⟨c', hc', hmem', rfl⟩ :=
      (writable_or_of_build h (List.mem_of_find?_eq_some hfind)).resolve_left hi
    exact ⟨c', hc', hmem', rfl⟩

theorem deserialize_of_build [Limits] {source : List Char} {b : Build} (h : build source = .ok b)
    {bytes : ByteArray} (hbytes : serialize b.code = .ok bytes) :
    deserialize bytes = .ok b.code := by
  obtain ⟨hwritable, rfl⟩ := serialize_eq_ok_iff.1 hbytes
  rw [deserialize_toUTF8, read_ofList_programChars_iff hwritable]
  exact fun i hi => complete_of_build h hi

/-- **Which built programs survive writing and reading.**  If no character constant of the program
is an end of line, then its code can be written, and what is read again is the same code; if one is,
then the code cannot be written, and the error is about such a constant. -/
theorem deserialize_serialize_build [Limits] {source : List Char} {b : Build}
    (h : build source = .ok b) :
    ((∀ c, .char c ∈ Stmt.literalsAll b.statements → isLineBreak c = false) →
      ∃ bytes, serialize b.code = .ok bytes ∧ deserialize bytes = .ok b.code) ∧
    ((∃ c, isLineBreak c = true ∧ .char c ∈ Stmt.literalsAll b.statements) →
      ∃ c, isLineBreak c = true ∧ .char c ∈ Stmt.literalsAll b.statements ∧
        serialize b.code = .error ⟨.lineBreak .constChar c.toString, none⟩) := by
  refine ⟨fun hchars => ?_, fun hchars => ?_⟩
  · have hbytes := serialize_eq_ok_iff.2 ⟨writable_of_build h hchars, rfl⟩
    exact ⟨_, hbytes, deserialize_of_build h hbytes⟩
  · obtain ⟨c, hc, hmem, hfind⟩ := find?_unwritable_of_build h hchars
    refine ⟨c, hc, hmem, ?_⟩
    rw [serialize_eq, hfind]
    rfl

/-- A text that prints a line feed as a string. -/
theorem build_print_string :
    let _ : Limits := ⟨985, 491⟩
    build "print(\"\n\");".toList = .ok
      ⟨⟨[⟨.kwPrint, "print", 1⟩, ⟨.leftParen, "(", 1⟩, ⟨.string, "\"\n\"", 1⟩,
          ⟨.rightParen, ")", 2⟩, ⟨.semicolon, ";", 2⟩], 2⟩,
        [.print (.literal (.string "\n") 1) 1],
        assemble [.print (.literal (.string "\n") 1) 1]⟩ := by
  intro limits
  exact build_eq_ok_iff.2 ⟨_, _, by cbv, rfl, rfl, rfl⟩

/-- A text that prints a line feed as a character. -/
theorem build_print_char :
    let _ : Limits := ⟨985, 491⟩
    build "print('\n');".toList = .ok
      ⟨⟨[⟨.kwPrint, "print", 1⟩, ⟨.leftParen, "(", 1⟩, ⟨.char, "'\n'", 1⟩,
          ⟨.rightParen, ")", 2⟩, ⟨.semicolon, ";", 2⟩], 2⟩,
        [.print (.literal (.char '\n') 1) 1],
        assemble [.print (.literal (.char '\n') 1) 1]⟩ := by
  intro limits
  exact build_eq_ok_iff.2 ⟨_, _, by cbv, rfl, rfl, rfl⟩

/-- A line feed between double quotes survives; between single quotes it cannot be written. -/
theorem deserialize_serialize_build_print :
    let _ : Limits := ⟨985, 491⟩
    (∃ b, build "print(\"\n\");".toList = .ok b ∧
      ∃ bytes, serialize b.code = .ok bytes ∧ deserialize bytes = .ok b.code) ∧
    ∃ b, build "print('\n');".toList = .ok b ∧
      serialize b.code = .error ⟨.lineBreak .constChar "\n", none⟩ := by
  intro limits
  refine ⟨⟨_, build_print_string, (deserialize_serialize_build build_print_string).1 ?_⟩, _,
    build_print_char, ?_⟩
  · intro c hc
    simp [Stmt.literalsAll, Stmt.literals, Expr.literals] at hc
  · obtain ⟨c, -, hmem, herror⟩ := (deserialize_serialize_build build_print_char).2
      ⟨'\n', by decide, List.mem_cons_self⟩
    obtain rfl : c = '\n' := by
      simpa [Stmt.literalsAll, Stmt.literals, Expr.literals] using hmem
    exact herror

end Scriptlet
