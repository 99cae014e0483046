import Scriptlet.Proofs.Grammar.Progress

/-!
# Reading operation by operation

The cursor can be moved by any operations in any order: by looking at the token under it, by an
elementary move, by reading an expression, a statement or all that is left.  An operation may fail,
and another may follow it from where it stopped.  Whatever was done before, the cursor is on the
tape, and no operation moves it back.

The loops of the grammar count their rounds down from the number of tokens ahead.  The count is
never what ends them: without it they end as well, in as many rounds or fewer, and with the same
result.

## What is here

* `Tape.Rounds.repeats` — **a loop ends if each of its rounds moves forward**.
* `loopsEnd` — the loops of the grammar.
* `Operation`, `performAll` — sequences of operations.
* `cursor_performAll` — what holds of the cursor after every sequence of operations.
-/

set_option autoImplicit false
namespace Scriptlet.Grammar

/-! ## Loops that end -/

section Loops

variable {σ : Type}

/-- A loop that is given as many rounds as there are tokens ahead ends like the loop without a
count, whatever state it starts from. -/
def Ends (round : σ → Parser (Option σ)) (loop : Nat → σ → Parser σ) (c : Cursor) : Prop :=
  ∀ s, ∃ n ≤ c.ahead.length,
    Repeats round n s c ((tokensAhead >>= fun rounds => loop rounds s).run c)

/-- The rounds of a loop on a tape: at the end of the text there is none, and each that goes on
moves forward. -/
structure Tape.Rounds (x : Tape) (round : σ → Parser (Option σ)) : Prop where
  stops (s : σ) : (round s).run (x.cursor x.size) = .ok none (x.cursor x.size)
  moves {k : Nat} {s s' : σ} {c : Cursor} (hk : k ≤ x.size)
    (h : (round s).run (x.cursor k) = .ok (some s') c) : ∃ j, k < j ∧ j ≤ x.size ∧ c = x.cursor j

variable {x : Tape} {round : σ → Parser (Option σ)}

/-- **A loop ends if each of its rounds moves forward**: its count, if not below the number of
tokens ahead, does not matter. -/
theorem Tape.Rounds.repeats (h : x.Rounds round) (rounds : Nat) : ∀ {k : Nat}, k ≤ x.size →
    x.size - k ≤ rounds → ∀ s, ∃ n ≤ x.size - k,
      Repeats round n s (x.cursor k) ((repeatUpTo round rounds s).run (x.cursor k)) := by
  induction rounds with
  | zero =>
    intro k hk hrounds s
    obtain rfl : k = x.size := by omega
    exact ⟨0, Nat.zero_le _, .done (h.stops s)⟩
  | succ rounds ih =>
    intro k hk hrounds s
    rw [repeatUpTo, EStateM.run_bind]
    rcases hrun : (round s).run (x.cursor k) with ⟨_ | s', c⟩ | ⟨e, c⟩
    · exact ⟨0, Nat.zero_le _, .done hrun⟩
    · obtain ⟨j, hj, hsize, rfl⟩ := h.moves hk hrun
      obtain ⟨n, hn, hrest⟩ := ih hsize (by omega) s'
      exact ⟨n + 1, by omega, .again hrun hrest⟩
    · exact ⟨0, Nat.zero_le _, .fail hrun⟩

theorem Tape.Rounds.ends (h : x.Rounds round) {k : Nat} (hk : k ≤ x.size) :
    Ends round (repeatUpTo round) (x.cursor k) := by
  intro s
  have hahead : (x.cursor k).ahead.length = x.size - k := List.length_drop
  rw [hahead]
  exact h.repeats (x.size - k) hk le_rfl s

end Loops

/-! ## The loops of the grammar -/

section Rounds

variable {x : Tape} {depth : Int} {operand element : Parser Expr} {statement : Parser Stmt}

theorem rounds_operandRound {level : Level} (h : x.Advances 0 depth operand) :
    x.Rounds (operandRound level.operator? operand) where
  stops left := by
    rw [operandRound, run_bind_of_ok (run_peek _), Tape.current_cursor_size, x.ends,
      level.operator?_endOfText]
    rfl
  moves := by
    intro k left left' c hk hrun
    rw [operandRound, run_bind_of_ok (run_peek _)] at hrun
    rcases hop : level.operator? (x.cursor k).current.kind with _ | op
    · rw [hop] at hrun
      cases hrun
    · have hlt := Tape.lt_of_kind_ne hk (kind_ne_endOfText_of_operator hop)
      simp only [hop] at hrun
      rw [run_bind_of_ok (run_advance _), Tape.next_cursor hlt] at hrun
      exact (h.seq fun right => .pure _).exists_of_ok hlt hrun

theorem rounds_elementRound (h : x.Advances 0 depth element) :
    x.Rounds (elementRound element) where
  stops read := by
    have hkind : (x.cursor x.size).current.kind ≠ .comma := by
      rw [Tape.current_cursor_size, x.ends]
      decide
    rw [elementRound, run_bind_of_ok ((run_accept _ _).trans (if_neg hkind))]
    rfl
  moves := by
    intro k read read' c hk hrun
    by_cases hkind : (x.cursor k).current.kind = .comma
    · have hlt := Tape.lt_of_kind_ne hk (by rw [hkind]; decide)
      rw [elementRound, run_bind_of_ok ((run_accept _ _).trans (if_pos hkind)),
        Tape.next_cursor hlt] at hrun
      exact (h.seq fun e => .pure _).exists_of_ok hlt hrun
    · rw [elementRound, run_bind_of_ok ((run_accept _ _).trans (if_neg hkind))] at hrun
      cases hrun

/-- Statements end at the end of the text, wherever else they may end. -/
theorem rounds_statementRound {ended : Parser Bool} {isEnd : Cursor → Bool}
    (hended : ∀ c, ended.run c = .ok (isEnd c) c) (hend : ∀ c, c.atEnd = true → isEnd c = true)
    (h : x.Advances 1 depth statement) : x.Rounds (statementRound ended statement) where
  stops read := by
    rw [statementRound, run_bind_of_ok (hended _), hend _ (Tape.atEnd_cursor.2 le_rfl)]
    rfl
  moves := by
    intro k read read' c hk hrun
    rw [statementRound, run_bind_of_ok (hended _)] at hrun
    split at hrun
    · cases hrun
    · exact (h.first fun s => .pure _).exists_of_ok hk hrun

end Rounds

theorem run_blockEnded (c : Cursor) :
    blockEnded.run c = .ok (decide (c.current.kind = .rightBrace) || c.atEnd) c := rfl

/-- The loops of the grammar end: the operands of a level, the elements of an array, the statements
of a block and those of a program. -/
structure LoopsEnd (c : Cursor) : Prop where
  operands (budget : Nat) (level : Level) :
    Ends (operandRound level.operator? (expression budget level.tighter))
      (foldOperands level.operator? (expression budget level.tighter)) c
  elements (budget : Nat) :
    Ends (elementRound (expression budget .whole)) (moreElements (expression budget .whole)) c
  block (budget : Nat) :
    Ends (statementRound blockEnded (statement budget .any))
      (statementsUntilBrace (statement budget .any)) c
  program (budget : Nat) :
    Ends (statementRound atEnd (statement budget .any))
      (statementsUntilEnd (statement budget .any)) c

section Budgets

variable (x : Tape) (budget : Nat)

/-- Whatever the budget, the expression takes a token; nothing is said of where the budget ends. -/
theorem advances_expression_any (level : Level) : x.Advances 1 (-1) (expression budget level) :=
  advances_expression budget level (by have := level.units_le; omega)

theorem advances_statement_any (form : Form) : x.Advances 1 (-1) (statement budget form) :=
  advances_statement budget form (by have := form.units_le; omega)

end Budgets

theorem loopsEnd {x : Tape} {k : Nat} (hk : k ≤ x.size) : LoopsEnd (x.cursor k) where
  operands budget level := by
    rw [foldOperands_eq_repeatUpTo]
    exact (rounds_operandRound (advances_expression_any x budget _).weaken).ends hk
  elements budget := by
    rw [moreElements_eq_repeatUpTo]
    exact (rounds_elementRound (advances_expression_any x budget _).weaken).ends hk
  block budget := by
    have hend (c : Cursor) (h : c.atEnd = true) :
        (decide (c.current.kind = .rightBrace) || c.atEnd) = true := by rw [h, Bool.or_true]
    rw [statementsUntilBrace_eq_repeatUpTo]
    have hrounds := rounds_statementRound run_blockEnded hend
      (advances_statement_any x budget .any)
    exact hrounds.ends hk
  program budget := by
    rw [statementsUntilEnd_eq_repeatUpTo]
    have hrounds := rounds_statementRound run_atEnd (fun _ => id)
      (advances_statement_any x budget .any)
    exact hrounds.ends hk

/-- A program that is read leaves the cursor on the end of the text. -/
theorem atEnd_of_programWithin {x : Tape} {budget k : Nat} {program : List Stmt} {c : Cursor}
    (hk : k ≤ x.size) (h : (programWithin budget).run (x.cursor k) = .ok program c) :
    c.atEnd = true := by
  rw [programWithin, ← bind_assoc] at h
  obtain ⟨read, d, hloop, hreturn⟩ := run_bind_ok.1 h
  obtain ⟨n, -, hrepeats⟩ := (loopsEnd hk).program budget []
  rw [hloop] at hrepeats
  obtain ⟨d', hlast⟩ := hrepeats.exists_last
  obtain rfl : d = c := (EStateM.Result.ok.inj hreturn).2
  rw [statementRound, run_bind_of_ok (run_atEnd _)] at hlast
  split at hlast
  · next hend =>
    obtain rfl : d' = d := (EStateM.Result.ok.inj hlast).2
    exact hend
  · obtain ⟨s, d'', -, hsome⟩ := run_bind_ok.1 hlast
    cases hsome

/-! ## Operations -/

/-- What can be asked of a reader.  What reads by the rules of the grammar has a nesting budget. -/
inductive Operation where
  | check (kind : TokenKind)
  | atEnd
  | accept (kinds : List TokenKind)
  | eat (kind : TokenKind) (expectation : Expectation)
  | advance
  | expression (budget : Nat) (level : Level)
  | statement (budget : Nat) (form : Form)
  | program (budget : Nat)
  deriving DecidableEq, Repr

theorem exists_of_run_discard {α : Type} {p : Parser α} {c c' : Cursor}
    (h : (discard p).run c = .ok () c') : ∃ a, p.run c = .ok a c' := by
  rw [Functor.discard, map_const, Function.comp_apply, map_eq_pure_bind] at h
  obtain ⟨a, d, hrun, hreturn⟩ := run_bind_ok.1 h
  obtain rfl : d = c' := (EStateM.Result.ok.inj hreturn).2
  exact ⟨a, hrun⟩

namespace Operation

/-- The operation on the cursor, without its result.  With the budget `nestingLimit`, reading a
program is `Grammar.program`: that is `program_eq`. -/
def action : Operation → Parser Unit
  | check kind => discard (Grammar.check kind)
  | atEnd => discard Grammar.atEnd
  | accept kinds => discard (accept? kinds)
  | eat kind expectation => discard (Grammar.eat kind expectation)
  | advance => discard Grammar.advance
  | expression budget level => discard (Grammar.expression budget level)
  | statement budget form => discard (Grammar.statement budget form)
  | program budget => discard (programWithin budget)

/-- The cursor after the operation, whether it succeeds or fails. -/
def perform (op : Operation) (c : Cursor) : Cursor :=
  match op.action.run c with
  | .ok _ c' => c'
  | .error _ c' => c'

/-- The number of tokens that the operation takes at least if it succeeds. -/
def gain : Operation → Nat
  | expression .. | statement .. => 1
  | _ => 0

/-- The nesting budget of the operation, if it has one. -/
def budget? : Operation → Option Nat
  | expression budget _ | statement budget _ | program budget => some budget
  | _ => none

/-- **Every operation moves forward.** -/
theorem advances {x : Tape} (op : Operation) {depth : Int}
    (h : ∀ n ∈ op.budget?, 24 * (depth + 1) ≤ n) : x.Advances op.gain depth op.action := by
  rcases op with kind | _ | kinds | ⟨kind, expectation⟩ | _ | ⟨n, level⟩ | ⟨n, form⟩ | n
  · exact (Tape.Advances.check kind).map _
  · exact Tape.Advances.atEnd.map _
  · exact (Tape.Advances.accept kinds).map _
  · exact (Tape.Advances.eatAny kind expectation).map _
  · exact Tape.Advances.advance.map _
  · have hlevel := level.units_le
    have hn := h n rfl
    exact (advances_expression n level (by omega)).map _
  · have hform := form.units_le
    have hn := h n rfl
    exact (advances_statement n form (by omega)).map _
  · have hn := h n rfl
    exact (advances_programWithin (by omega)).map _

theorem advances_any (x : Tape) (op : Operation) : x.Advances op.gain (-1) op.action :=
  op.advances fun n _ => by omega

theorem perform_cursor {x : Tape} (op : Operation) {k : Nat} (hk : k ≤ x.size) :
    ∃ j, k ≤ j ∧ j ≤ x.size ∧ op.perform (x.cursor k) = x.cursor j := by
  have hlands := (op.advances_any x).lands hk
  rw [perform]
  generalize op.action.run (x.cursor k) = r at hlands ⊢
  rcases r with ⟨_, c⟩ | ⟨e, c⟩
  · obtain ⟨j, hj, hsize, hc⟩ := hlands
    exact ⟨j, by omega, hsize, hc⟩
  · obtain ⟨j, hj, hsize, hc, -⟩ := hlands
    exact ⟨j, hj, hsize, hc⟩

end Operation

/-- The cursor after one operation after another, each from where the last one stopped. -/
def performAll (ops : List Operation) (c : Cursor) : Cursor :=
  ops.foldl (fun c op => op.perform c) c

/-- **Operations move over the tape.** -/
theorem exists_performAll_eq {x : Tape} (ops : List Operation) : ∀ {k : Nat}, k ≤ x.size →
    ∃ j, k ≤ j ∧ j ≤ x.size ∧ performAll ops (x.cursor k) = x.cursor j := by
  induction ops with
  | nil => exact fun {k} hk => ⟨k, le_rfl, hk, rfl⟩
  | cons op ops ih =>
    intro k hk
    obtain ⟨i, hi, hsize, hop⟩ := op.perform_cursor hk
    obtain ⟨j, hj, hsize', hops⟩ := ih hsize
    exact ⟨j, hi.trans hj, hsize', by rw [← hops, ← hop]; rfl⟩

/-- **Reading moves forward and ends**, whatever was done before.  After any operations, failed or
not, the cursor is on the token with the number of its position.  No operation moves it back; one
that reads an expression or a statement moves it over a token if it succeeds, and one that reads a
program moves it to the end.  Every loop of the grammar ends.  And the budget is not what ends
reading: with 24 units for each token ahead, the end included, none fails for want of budget. -/
theorem cursor_performAll (x : Tape) (ops : List Operation) :
    let c := performAll ops (x.cursor 0)
    c.position < x.toList.length ∧
    x.toList[c.position]? = some c.current ∧
    (c.atEnd = true ↔ c.current.kind = .endOfText) ∧
    (∀ op : Operation, c.position ≤ (op.perform c).position) ∧
    (∀ (op : Operation) c', op.action.run c = .ok () c' → c.position + op.gain ≤ c'.position) ∧
    (∀ n c', (Operation.program n).action.run c = .ok () c' → c'.current = x.last) ∧
    LoopsEnd c ∧
    ∀ (op : Operation) e c', op.action.run c = .error e c' →
      (∀ n ∈ op.budget?, 24 * (x.toList.length - c.position) ≤ n) → e.fault ≠ .tooDeep := by
  obtain ⟨k, -, hk, hc⟩ := exists_performAll_eq (x := x) ops (Nat.zero_le _)
  simp only [hc]
  have hlength : x.toList.length = x.size + 1 := by simp [Tape.toList, Tape.size]
  refine ⟨hlength ▸ Nat.lt_succ_of_le hk, Tape.getElem?_toList hk, ?_, fun op => ?_,
    fun op c' h => ?_, fun n c' h => ?_, loopsEnd hk, fun op e c' h hbudget hdeep => ?_⟩
  · rw [Tape.atEnd_cursor, Tape.kind_current_eq_endOfText_iff hk]
    omega
  · obtain ⟨j, hj, -, hop⟩ := op.perform_cursor hk
    rw [hop]
    exact hj
  · obtain ⟨j, hj, -, rfl⟩ := (op.advances_any x).exists_of_ok hk h
    exact hj
  · obtain ⟨j, -, hj, rfl⟩ := ((Operation.program n).advances_any x).exists_of_ok hk h
    obtain ⟨program, hprogram⟩ := exists_of_run_discard h
    have hend := Tape.atEnd_cursor.1 (atEnd_of_programWithin hk hprogram)
    obtain rfl : j = x.size := Nat.le_antisymm hj hend
    exact Tape.current_cursor_size
  · have hadvances : x.Advances op.gain (x.size - k) op.action := op.advances fun n hn => by
      have henough : 24 * (x.size + 1 - k) ≤ n := hlength ▸ hbudget n hn
      omega
    have hlands := hadvances.lands hk
    rw [h] at hlands
    obtain ⟨-, -, -, -, hshort⟩ := hlands
    exact lt_irrefl _ (hshort hdeep)

end Scriptlet.Grammar
