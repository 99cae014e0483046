import Mathlib
import Scriptlet.Grammar.Statement

/-!
# The loops of the grammar

The grammar has four loops: over the operands of a level, over the elements of an array literal,
over the statements of a block and over those of a program.  Each repeats a round until a round
finds that nothing more belongs to it, and each counts its rounds down.

## What is here

* `Repeats round n s c r` — the loop without a count: from the state `s` and the cursor `c` it comes
  to `r` after `n` rounds that went on.
* `repeatUpTo round` — the loop with a count.
* `operandRound`, `elementRound`, `statementRound` — the rounds of the four loops, and for each loop
  its equation with `repeatUpTo`.
-/

set_option autoImplicit false
namespace Scriptlet.Grammar

/-! ## Loops in general -/

section Loops

variable {σ : Type}

/-- The loop that repeats a round, each from the state that the last one returned, until one returns
none or fails.  The number counts the rounds that went on. -/
inductive Repeats (round : σ → Parser (Option σ)) :
    Nat → σ → Cursor → EStateM.Result Error Cursor σ → Prop
  | done {s : σ} {c c' : Cursor} (h : (round s).run c = .ok none c') :
      Repeats round 0 s c (.ok s c')
  | fail {s : σ} {c c' : Cursor} {e : Error} (h : (round s).run c = .error e c') :
      Repeats round 0 s c (.error e c')
  | again {n : Nat} {s s' : σ} {c c' : Cursor} {r : EStateM.Result Error Cursor σ}
      (h : (round s).run c = .ok (some s') c') (hrest : Repeats round n s' c' r) :
      Repeats round (n + 1) s c r

/-- The same loop with a count of rounds. -/
def repeatUpTo (round : σ → Parser (Option σ)) : Nat → σ → Parser σ
  | 0, s => return s
  | rounds + 1, s => do
    match ← round s with
    | none => return s
    | some s' => repeatUpTo round rounds s'

/-- If a loop returns a state, the round from that state was its last. -/
theorem Repeats.exists_last {round : σ → Parser (Option σ)} {n : Nat} {s s' : σ} {c c' : Cursor}
    (h : Repeats round n s c (.ok s' c')) : ∃ d, (round s').run d = .ok none c' := by
  generalize hr : EStateM.Result.ok s' c' = r at h
  induction h with
  | @done s c c'' h =>
    obtain ⟨rfl, rfl⟩ := EStateM.Result.ok.inj hr
    exact ⟨c, h⟩
  | fail h => cases hr
  | again h hrest ih => exact ih hr

end Loops

/-! ## Rounds -/

/-- An operator and its right operand, if an operator follows. -/
def operandRound (operator? : TokenKind → Option BinaryOp) (operand : Parser Expr) (left : Expr) :
    Parser (Option Expr) := do
  let token ← peek
  match operator? token.kind with
  | none => return none
  | some op =>
    let _ ← advance
    let right ← operand
    return some (.binary left op right token.line)

/-- A comma and an element, if a comma follows. -/
def elementRound (element : Parser Expr) (read : List Expr) : Parser (Option (List Expr)) := do
  match ← accept? [.comma] with
  | none => return none
  | some _ => return some ((← element) :: read)

/-- A statement, unless the statements end here. -/
def statementRound (ended : Parser Bool) (statement : Parser Stmt) (read : List Stmt) :
    Parser (Option (List Stmt)) := do
  if ← ended then
    return none
  else
    return some ((← statement) :: read)

/-- Whether the statements of a block end here. -/
def blockEnded : Parser Bool :=
  return (← check .rightBrace) || (← atEnd)

/-! ## Equations -/

theorem foldOperands_eq_repeatUpTo (operator? : TokenKind → Option BinaryOp)
    (operand : Parser Expr) :
    foldOperands operator? operand = repeatUpTo (operandRound operator? operand) := by
  funext rounds
  induction rounds with
  | zero => rfl
  | succ rounds ih =>
    funext left
    rw [foldOperands, repeatUpTo, operandRound, bind_assoc, ih]
    congr 1
    funext token
    rcases operator? token.kind with _ | op <;> simp

theorem moreElements_eq_repeatUpTo (element : Parser Expr) :
    moreElements element = repeatUpTo (elementRound element) := by
  funext rounds
  induction rounds with
  | zero => rfl
  | succ rounds ih =>
    funext read
    rw [moreElements, repeatUpTo, elementRound, bind_assoc, ih]
    congr 1
    funext comma
    rcases comma with _ | comma <;> simp

theorem statementsUntilBrace_eq_repeatUpTo (statement : Parser Stmt) :
    statementsUntilBrace statement = repeatUpTo (statementRound blockEnded statement) := by
  funext rounds
  induction rounds with
  | zero => rfl
  | succ rounds ih =>
    funext read
    simp only [statementsUntilBrace, repeatUpTo, statementRound, blockEnded, bind_assoc, pure_bind,
      ih]
    congr 1
    funext brace
    congr 1
    funext atEnd
    split <;> simp

theorem statementsUntilEnd_eq_repeatUpTo (statement : Parser Stmt) :
    statementsUntilEnd statement = repeatUpTo (statementRound atEnd statement) := by
  funext rounds
  induction rounds with
  | zero => rfl
  | succ rounds ih =>
    funext read
    rw [statementsUntilEnd, repeatUpTo, statementRound, bind_assoc, ih]
    congr 1
    funext atEnd
    split <;> simp

end Scriptlet.Grammar
