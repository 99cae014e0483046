import Mathlib
import Scriptlet.Proofs.Grammar.Agreement

/-!
# Spacing does not matter

Comments, blanks and line breaks between the tokens of a text decide on which lines the tokens
stand, and on nothing else.  So two texts with the same tokens are built into the same code, or are
refused for the same reason at the same token; only the lines in messages may differ.

## What is here

* `Grammar.run_program_of_unlined` — two readings of the same tokens come to the same end.
* `SameOutcome` — what two builds have in common if lines are left aside.
* `build_of_same_tokens` — texts with the same tokens have the same outcome.
-/

set_option autoImplicit false
namespace Scriptlet

namespace Grammar

/-- The comparison of two texts whose tokens are all the same; the limit is some place in them. -/
def sameTokens (limit : Nat) : Comparison :=
  ⟨limit, fun _ => True⟩

theorem parallel_program [Limits] (limit : Nat) :
    (sameTokens limit).Parallel (List.map Stmt.unlined) program program := by
  rw [program_eq]
  exact parallel_programWithin ⟨le_rfl, fun _ => rfl⟩

/-- **Two readings of the same tokens come to the same end**: the same statements but for their
lines, or the same fault at the same token. -/
theorem run_program_of_unlined [Limits] {s t : TokenStream}
    (h : s.tokens.map Token.unlined = t.tokens.map Token.unlined) :
    (∃ ss c ss' c', program.run (Cursor.start s) = .ok ss c ∧
      program.run (Cursor.start t) = .ok ss' c' ∧ ss.map Stmt.unlined = ss'.map Stmt.unlined) ∨
    ∃ e c e' c', program.run (Cursor.start s) = .error e c ∧
      program.run (Cursor.start t) = .error e' c' ∧ e.fault = e'.fault ∧
      e.token.unlined = e'.token.unlined ∧ c.position = c'.position := by
  rw [Cursor.start_eq_before, Cursor.start_eq_before]
  cases hrun : program.run (.before s.endLine 0 s.tokens) with
  | ok ss c =>
    obtain ⟨m, -, rfl⟩ := moves_program.ok hrun
    have hfollows := (parallel_program (0 + m)).follows (Nat.zero_le _) (Shared.of_map_eq h)
    obtain ⟨ss', hrun', hss⟩ := hfollows.ok t.endLine le_rfl hrun
    exact .inl ⟨_, _, _, _, rfl, hrun', hss⟩
  | error e c =>
    obtain ⟨htoken, m, -, rfl⟩ := moves_program.error hrun
    have hshared : Shared ((sameTokens (0 + m)).limit - 0) s.tokens t.tokens := Shared.of_map_eq h
    have hfollows := (parallel_program (0 + m)).follows (Nat.zero_le _) hshared
    obtain ⟨e', hrun', hfault⟩ := hfollows.error t.endLine le_rfl trivial hrun
    obtain ⟨htoken', -⟩ := moves_program.error hrun'
    refine .inr ⟨_, _, _, _, rfl, hrun', hfault.symm, ?_, rfl⟩
    rw [htoken, htoken']
    exact (hshared.sub_drop le_rfl).current s.endLine t.endLine (0 + m)

theorem parse_of_ok [Limits] {tokens : TokenStream} {ss : List Stmt} {c : Cursor}
    (h : program.run (Cursor.start tokens) = .ok ss c) : parse tokens = .ok ss := by
  rw [parse, h]

theorem parse_of_error [Limits] {tokens : TokenStream} {e : Error} {c : Cursor}
    (h : program.run (Cursor.start tokens) = .error e c) : parse tokens = .error e := by
  rw [parse, h]

end Grammar

/-! ## Builds -/

/-- What the builds of two texts have in common, whatever the lines of their tokens: the same code;
or the same fault with the same lexeme after as many tokens; or violations of the same kinds about
the same names in the same order. -/
inductive SameOutcome [Limits] (s t : TokenStream) :
    Except BuildError Build → Except BuildError Build → Prop
  | code {b b' : Build} : b.code = b'.code → SameOutcome s t (.ok b) (.ok b')
  | grammar {e e' : Grammar.Error} {c c' : Grammar.Cursor} :
      Grammar.program.run (Grammar.Cursor.start s) = .error e c →
      Grammar.program.run (Grammar.Cursor.start t) = .error e' c' →
      e.fault = e'.fault → e.token.lexeme = e'.token.lexeme → c.position = c'.position →
      SameOutcome s t (.error (.grammar e)) (.error (.grammar e'))
  | declarations {vs vs' : List Violation} :
      vs.map Violation.unlined = vs'.map Violation.unlined →
      SameOutcome s t (.error (.declarations vs)) (.error (.declarations vs'))

theorem build_of_parse_error [Limits] {source : List Char} {tokens : TokenStream}
    {e : Grammar.Error} (h : tokenize source = .ok tokens) (he : Grammar.parse tokens = .error e) :
    build source = .error (.grammar e) := by
  rw [build, readStatements, h]
  simp only [he]

theorem build_of_parse_ok [Limits] {source : List Char} {tokens : TokenStream}
    {statements : List Stmt} (h : tokenize source = .ok tokens)
    (hs : Grammar.parse tokens = .ok statements) :
    build source =
      if (Scope.check {} statements).violations.toList.isEmpty then
        .ok ⟨tokens, statements, assemble statements⟩
      else .error (.declarations (Scope.check {} statements).violations.toList) := by
  rw [build, readStatements, h]
  simp only [hs, Scope.verdict, Array.isEmpty_toList]
  cases (Scope.check {} statements).violations.isEmpty <;> rfl

/-- Statements that differ in lines only have the same code or the same violations. -/
theorem SameOutcome.of_statements [Limits] {source source' : List Char} {s t : TokenStream}
    {ss ss' : List Stmt} (hs : tokenize source = .ok s) (ht : tokenize source' = .ok t)
    (hss : Grammar.parse s = .ok ss) (hss' : Grammar.parse t = .ok ss')
    (h : ss.map Stmt.unlined = ss'.map Stmt.unlined) :
    SameOutcome s t (build source) (build source') := by
  have hviolations := violations_of_unlined h
  have hempty : (Scope.check {} ss).violations.toList.isEmpty =
      (Scope.check {} ss').violations.toList.isEmpty := by
    simpa using congrArg List.isEmpty hviolations
  rw [build_of_parse_ok hs hss, build_of_parse_ok ht hss', hempty]
  split
  · refine .code ?_
    rw [Build.code, Build.code, ← assemble_unlined ss, h, assemble_unlined]
  · exact .declarations hviolations

/-- **Texts with the same tokens have the same outcome**, however they are laid out: each token has
the same kind and the same lexeme in both, and nothing is said about the lines. -/
theorem build_of_same_tokens [Limits] {source source' : List Char} {s t : TokenStream}
    (hs : tokenize source = .ok s) (ht : tokenize source' = .ok t)
    (h : s.toList.map (fun u => (u.kind, u.lexeme)) = t.toList.map fun u => (u.kind, u.lexeme)) :
    SameOutcome s t (build source) (build source') := by
  have htokens : s.tokens.map Token.unlined = t.tokens.map Token.unlined := by
    refine Token.map_unlined_eq ?_
    simpa [TokenStream.toList, TokenStream.endToken] using h
  obtain ⟨ss, c, ss', c', hss, hss', hstatements⟩ |
      ⟨e, c, e', c', he, he', hfault, htoken, hplace⟩ := Grammar.run_program_of_unlined htokens
  · exact .of_statements hs ht (Grammar.parse_of_ok hss) (Grammar.parse_of_ok hss') hstatements
  · rw [build_of_parse_error hs (Grammar.parse_of_error he),
      build_of_parse_error ht (Grammar.parse_of_error he')]
    exact .grammar he he' hfault (Token.unlined_eq_iff.1 htoken).2 hplace

/-- A use without a declaration, on one line and spread over three. -/
theorem build_of_same_tokens_undeclared :
    let _ : Limits := ⟨40, 1⟩
    (∃ s, tokenize "print(x);".toList = .ok s ∧
      ∃ t, tokenize "print // first\n(\n  x );".toList = .ok t ∧
        SameOutcome s t (build "print(x);".toList) (build "print // first\n(\n  x );".toList)) ∧
    build "print(x);".toList = .error (.declarations [.usedBeforeDeclaration "x" 1]) ∧
    build "print // first\n(\n  x );".toList =
      .error (.declarations [.usedBeforeDeclaration "x" 3]) := by
  intro limits
  have hs : tokenize "print(x);".toList = .ok ⟨[⟨.kwPrint, "print", 1⟩, ⟨.leftParen, "(", 1⟩,
      ⟨.identifier, "x", 1⟩, ⟨.rightParen, ")", 1⟩, ⟨.semicolon, ";", 1⟩], 1⟩ := by cbv
  have ht : tokenize "print // first\n(\n  x );".toList = .ok ⟨[⟨.kwPrint, "print", 1⟩,
      ⟨.leftParen, "(", 2⟩, ⟨.identifier, "x", 3⟩, ⟨.rightParen, ")", 3⟩,
      ⟨.semicolon, ";", 3⟩], 3⟩ := by cbv
  refine ⟨⟨_, hs, _, ht, build_of_same_tokens hs ht (by decide)⟩, ?_, ?_⟩
  · exact build_of_parse_ok hs rfl
  · exact build_of_parse_ok ht rfl

end Scriptlet
