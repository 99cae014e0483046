import Mathlib
import Scriptlet.Proofs.Grammar.Agreement
import Scriptlet.Proofs.Grammar.Loops

/-!
# Parsers move forward

A cursor over a text is only ever moved forward, by an elementary move over one token at a time, and
what reads an expression or a statement moves it by at least one.  This is why reading ends: a loop
has at most as many rounds as there are tokens ahead, and brackets can be nested no deeper than
there are tokens ahead to open them.  So the nesting budget is not what makes reading end.  A budget
of 24 units for each token ahead, the end counting as one, is never used up.

## What is here

* `Tape` — a text as a list of tokens that ends with its only end of text; `Tape.cursor x k` — the
  cursor after `k` of its tokens.
* `Tape.Advances x gain depth p` — wherever `p` starts on the tape, it stops further on, on success
  by `gain` tokens at least, and it does not run out of its budget before `depth` tokens or fewer.
* `advances_expression`, `advances_statement` — **every expression and every statement takes a
  token**, and a budget suffices for as many tokens ahead as `Level.units` and `Form.units` say.
* `advances_programWithin` — programs.
-/

set_option autoImplicit false
namespace Scriptlet.Grammar

/-! ## Tapes -/

/-- A text as its tokens, none of which is the end, and then the end. -/
structure Tape where
  tokens : List Token
  last : Token
  inner : ∀ t ∈ tokens, t.kind ≠ .endOfText
  ends : last.kind = .endOfText

namespace Tape

/-- All tokens, the end last. -/
def toList (x : Tape) : List Token :=
  x.tokens ++ [x.last]

/-- The number of tokens before the end. -/
def size (x : Tape) : Nat :=
  x.tokens.length

/-- The cursor after `k` tokens. -/
def cursor (x : Tape) (k : Nat) : Cursor :=
  ⟨x.size, k, x.tokens.drop k, x.last⟩

variable {x : Tape} {k : Nat}

theorem next_cursor (hk : k < x.size) : (x.cursor k).next = x.cursor (k + 1) := by
  rw [Cursor.next, cursor, List.drop_eq_getElem_cons hk]
  rfl

theorem next_cursor_size : (x.cursor x.size).next = x.cursor x.size := by
  simp [Cursor.next, cursor, size]

theorem current_cursor_size : (x.cursor x.size).current = x.last := by
  simp [Cursor.current, cursor, size]

theorem atEnd_cursor : (x.cursor k).atEnd = true ↔ x.size ≤ k := by
  simp [Cursor.atEnd, cursor, size]

/-- The token under the cursor is the one with the number of its position. -/
theorem getElem?_toList (hk : k ≤ x.size) : x.toList[k]? = some (x.cursor k).current := by
  rcases Nat.lt_or_ge k x.size with h | h
  · rw [toList, List.getElem?_append_left h, Cursor.current, cursor, List.drop_eq_getElem_cons h,
      List.getElem?_eq_getElem h]
    rfl
  · obtain rfl : k = x.size := Nat.le_antisymm hk h
    rw [current_cursor_size]
    exact List.getElem?_concat_length

/-- Only the end of the text is its end. -/
theorem kind_current_eq_endOfText_iff (hk : k ≤ x.size) :
    (x.cursor k).current.kind = .endOfText ↔ k = x.size := by
  rcases Nat.lt_or_ge k x.size with h | h
  · have hcurrent := getElem?_toList hk
    rw [toList, List.getElem?_append_left h] at hcurrent
    exact iff_of_false (x.inner _ (List.mem_of_getElem? hcurrent)) (Nat.ne_of_lt h)
  · obtain rfl : k = x.size := Nat.le_antisymm hk h
    exact iff_of_true (current_cursor_size ▸ x.ends) rfl

theorem lt_of_kind_ne (hk : k ≤ x.size) (h : (x.cursor k).current.kind ≠ .endOfText) : k < x.size :=
  Nat.lt_of_le_of_ne hk fun heq => h ((kind_current_eq_endOfText_iff hk).2 heq)

end Tape

/-- Reading starts on the tape of the token stream. -/
example (s : TokenStream) (h : ∀ t ∈ s.tokens, t.kind ≠ .endOfText) :
    Cursor.start s = (Tape.mk s.tokens s.endToken h rfl).cursor 0 := rfl

/-! ## Moving forward -/

namespace Tape

variable {α β : Type}

/-- Where an action comes to that starts after `k` tokens: further on, and if it succeeds by `gain`
tokens at least.  If it fails for want of budget, more than `depth` tokens were ahead of it. -/
def Lands (x : Tape) (gain : Nat) (depth : Int) (k : Nat) : EStateM.Result Error Cursor α → Prop
  | .ok _ c => ∃ j, k + gain ≤ j ∧ j ≤ x.size ∧ c = x.cursor j
  | .error e c => ∃ j, k ≤ j ∧ j ≤ x.size ∧ c = x.cursor j ∧
      (e.fault = .tooDeep → depth < (x.size : Int) - k)

/-- The action moves forward wherever it starts before the token `t`. -/
def AdvancesFrom (x : Tape) (t : Token) (gain : Nat) (depth : Int) (p : Parser α) : Prop :=
  ∀ k ≤ x.size, (x.cursor k).current = t → x.Lands gain depth k (p.run (x.cursor k))

/-- The action moves forward wherever it starts. -/
def Advances (x : Tape) (gain : Nat) (depth : Int) (p : Parser α) : Prop :=
  ∀ t, x.AdvancesFrom t gain depth p

variable {x : Tape} {gain gain' : Nat} {depth depth' : Int} {p : Parser α} {f : α → Parser β}

theorem Advances.lands (h : x.Advances gain depth p) {k : Nat} (hk : k ≤ x.size) :
    x.Lands gain depth k (p.run (x.cursor k)) :=
  h _ k hk rfl

theorem Advances.exists_of_ok (h : x.Advances gain depth p) {k : Nat} (hk : k ≤ x.size) {a : α}
    {c : Cursor} (hrun : p.run (x.cursor k) = .ok a c) :
    ∃ j, k + gain ≤ j ∧ j ≤ x.size ∧ c = x.cursor j := by
  have hlands := h.lands hk
  rwa [hrun] at hlands

theorem Lands.mono {k : Nat} {r : EStateM.Result Error Cursor α} (h : x.Lands gain depth k r)
    (hgain : gain' ≤ gain) (hdepth : depth' ≤ depth) : x.Lands gain' depth' k r := by
  rcases r with ⟨a, c⟩ | ⟨e, c⟩
  · obtain ⟨j, hj, hsize, hc⟩ := h
    exact ⟨j, by omega, hsize, hc⟩
  · obtain ⟨j, hj, hsize, hc, hdeep⟩ := h
    exact ⟨j, hj, hsize, hc, fun he => lt_of_le_of_lt hdepth (hdeep he)⟩

namespace Advances

theorem mono (h : x.Advances gain depth p) (hgain : gain' ≤ gain) (hdepth : depth' ≤ depth) :
    x.Advances gain' depth' p :=
  fun t k hk ht => (h t k hk ht).mono hgain hdepth

theorem pure (a : α) : x.Advances 0 depth (Pure.pure a) :=
  fun _ k hk _ => ⟨k, le_rfl, hk, rfl⟩

/-- An unmet expectation is not a want of budget. -/
theorem unmet (expectation : Expectation) :
    x.Advances gain depth (stop (.unmet expectation) : Parser α) :=
  fun _ k hk _ => ⟨k, le_rfl, hk, rfl, fun he => nomatch he⟩

/-- A budget that is used up at once does not suffice for any token. -/
theorem tooDeep (h : depth < 0) : x.Advances gain depth (stop .tooDeep : Parser α) :=
  fun _ k hk _ => ⟨k, le_rfl, hk, rfl, fun _ => by omega⟩

theorem bind (hp : x.Advances gain depth p) (hf : ∀ a, x.Advances gain' depth' (f a))
    (hdepth : depth ≤ depth' + gain) : x.Advances (gain + gain') depth (p >>= f) := by
  intro t k hk ht
  have hfirst := hp t k hk ht
  rw [EStateM.run_bind]
  rcases hrun : p.run (x.cursor k) with ⟨a, c⟩ | ⟨e, c⟩
  · rw [hrun] at hfirst
    obtain ⟨j, hj, hsize, rfl⟩ := hfirst
    have hsecond := (hf a).lands hsize
    show x.Lands _ _ k ((f a).run (x.cursor j))
    rcases hrun' : (f a).run (x.cursor j) with ⟨b, c⟩ | ⟨e, c⟩
    · rw [hrun'] at hsecond
      obtain ⟨i, hi, hsize', rfl⟩ := hsecond
      exact ⟨i, by omega, hsize', rfl⟩
    · rw [hrun'] at hsecond
      obtain ⟨i, hi, hsize', rfl, hdeep⟩ := hsecond
      exact ⟨i, by omega, hsize', rfl, fun he => by have := hdeep he; omega⟩
  · rw [hrun] at hfirst
    exact hfirst

theorem weaken (h : x.Advances gain depth p) : x.Advances 0 depth p :=
  h.mono (Nat.zero_le _) le_rfl

/-- Moves after the first, of which no gain is asked. -/
theorem seq (hp : x.Advances gain depth p) (hf : ∀ a, x.Advances 0 depth (f a)) :
    x.Advances 0 depth (p >>= f) :=
  hp.weaken.bind hf (by omega)

/-- The first move takes a token, so what follows has one token fewer ahead. -/
theorem first (hp : x.Advances 1 depth p) (hf : ∀ a, x.Advances 0 (depth - 1) (f a)) :
    x.Advances 1 depth (p >>= f) :=
  hp.bind hf (by omega)

theorem map (h : x.Advances gain depth p) (g : α → β) : x.Advances gain depth (g <$> p) := by
  have hpure (a : α) : x.Advances 0 depth (Pure.pure (g a)) := pure (g a)
  rw [map_eq_pure_bind]
  exact h.bind hpure (by omega)

/-- A move that looks at the cursor and leaves it where it is. -/
theorem of_look (hp : ∀ c, ∃ a, p.run c = .ok a c) : x.Advances 0 depth p := by
  intro t k hk _
  obtain ⟨a, ha⟩ := hp (x.cursor k)
  rw [ha]
  exact ⟨k, le_rfl, hk, rfl⟩

theorem check (kind : TokenKind) : x.Advances 0 depth (check kind) :=
  of_look fun c => ⟨_, run_check kind c⟩

theorem atEnd : x.Advances 0 depth atEnd :=
  of_look fun c => ⟨_, run_atEnd c⟩

theorem tokensAhead : x.Advances 0 depth tokensAhead :=
  of_look fun _ => ⟨_, rfl⟩

/-- What follows a look at the token under the cursor starts before that token. -/
theorem peek {f : Token → Parser β} (hf : ∀ t, x.AdvancesFrom t gain depth (f t)) :
    x.Advances gain depth (peek >>= f) := by
  intro t k hk ht
  rw [run_bind_of_ok (run_peek _), ht]
  exact hf t k hk ht

theorem advance : x.Advances 0 depth advance := by
  intro t k hk _
  rw [run_advance]
  rcases Nat.lt_or_ge k x.size with h | h
  · exact ⟨k + 1, by omega, h, next_cursor h⟩
  · obtain rfl : k = x.size := Nat.le_antisymm hk h
    exact ⟨x.size, le_rfl, le_rfl, next_cursor_size⟩

theorem accept (kinds : List TokenKind) : x.Advances 0 depth (accept? kinds) := by
  refine peek fun t => ?_
  split
  · exact advance.map some t
  · exact pure none t

theorem eatAny (kind : TokenKind) (expectation : Expectation) :
    x.Advances 0 depth (eat kind expectation) := by
  refine peek fun t => ?_
  split
  · exact advance t
  · exact unmet expectation t

/-- One induction for the loops of the grammar: what each round of a loop does, the loop does. -/
theorem repeatUpTo {round : α → Parser (Option α)} (h : ∀ s, x.Advances 0 depth (round s))
    (rounds : Nat) : ∀ s, x.Advances 0 depth (repeatUpTo round rounds s) := by
  induction rounds with
  | zero => exact pure
  | succ rounds ih =>
    refine fun s => (h s).seq fun next => ?_
    rcases next with _ | s'
    · exact pure s
    · exact ih s'

end Advances

/-- A move over a token that is not the end. -/
theorem AdvancesFrom.advance {t : Token} {f : Token → Parser β} (ht : t.kind ≠ .endOfText)
    (hf : ∀ t, x.Advances gain (depth - 1) (f t)) :
    x.AdvancesFrom t (1 + gain) depth (advance >>= f) := by
  intro k hk hcurrent
  have hlt : k < x.size := lt_of_kind_ne hk (hcurrent ▸ ht)
  rw [run_bind_of_ok (run_advance _), next_cursor hlt]
  have hrest := (hf (x.cursor k).current).lands (k := k + 1) hlt
  generalize (f (x.cursor k).current).run (x.cursor (k + 1)) = r at hrest
  rcases r with ⟨b, c⟩ | ⟨e, c⟩
  · obtain ⟨j, hj, hsize, rfl⟩ := hrest
    exact ⟨j, by omega, hsize, rfl⟩
  · obtain ⟨j, hj, hsize, rfl, hdeep⟩ := hrest
    exact ⟨j, by omega, hsize, rfl, fun he => by have := hdeep he; omega⟩

theorem Advances.eat {kind : TokenKind} (hkind : kind ≠ .endOfText) (expectation : Expectation) :
    x.Advances 1 depth (eat kind expectation) := by
  refine .peek fun t => ?_
  split
  · next ht =>
    have h : x.AdvancesFrom t (1 + 0) depth (Grammar.advance >>= Pure.pure) :=
      .advance (ht ▸ hkind) fun t => .pure t
    rwa [bind_pure] at h
  · exact unmet expectation t

theorem Advances.mark {kind : TokenKind} (hkind : kind ≠ .endOfText) (place : Place) :
    x.Advances 1 depth (eatMark kind place) :=
  .eat hkind _

theorem Advances.name (place : Place) : x.Advances 1 depth (eatName place) :=
  .eat (by decide) _

end Tape

/-! ## Expressions -/

section Expressions

variable {x : Tape} {depth : Int} {operand element inner signed unsigned : Parser Expr}

theorem advances_operandRound {level : Level} (h : x.Advances 0 depth operand) (left : Expr) :
    x.Advances 0 depth (operandRound level.operator? operand left) := by
  refine .peek fun t => ?_
  rcases level.operator? t.kind with _ | op
  · exact Tape.Advances.pure none t
  · exact (Tape.Advances.advance.seq fun _ => h.seq fun right => .pure _) t

theorem advances_operands {level : Level} (h : x.Advances 1 depth operand) :
    x.Advances 1 depth (operands level.operator? operand) := by
  have hrest : x.Advances 0 (depth - 1) operand := h.mono (Nat.zero_le _) (by omega)
  rw [operands, foldOperands_eq_repeatUpTo]
  exact h.first fun left => Tape.Advances.tokensAhead.seq fun rounds =>
    .repeatUpTo (advances_operandRound hrest) rounds left

theorem advances_elementRound (h : x.Advances 0 depth element) (read : List Expr) :
    x.Advances 0 depth (elementRound element read) := by
  refine (Tape.Advances.accept _).seq fun comma => ?_
  rcases comma with _ | comma
  · exact .pure none
  · exact h.seq fun e => .pure _

theorem advances_elements (h : x.Advances 0 depth element) :
    x.Advances 0 depth (elements element) := by
  rw [elements, moreElements_eq_repeatUpTo]
  refine (Tape.Advances.check _).seq fun b => ?_
  split
  · exact .pure []
  · exact h.seq fun first => Tape.Advances.tokensAhead.seq fun rounds =>
      (Tape.Advances.repeatUpTo (advances_elementRound h) rounds [first]).seq fun all => .pure _

/-- A primary expression takes its first token before it reads the expressions inside it. -/
theorem advances_primary (h : x.Advances 0 (depth - 1) inner) :
    x.Advances 1 depth (primary inner) := by
  refine .peek fun t => ?_
  split
  · next ht => exact .advance (by simp [ht]) fun _ => .pure _
  · next ht => exact .advance (by simp [ht]) fun _ => .pure _
  · next ht => exact .advance (by simp [ht]) fun _ => .pure _
  · next ht =>
    refine .advance (by simp [ht]) fun _ => (Tape.Advances.accept _).seq fun opening => ?_
    rcases opening with _ | opening
    · exact .pure _
    · exact h.seq fun index => (Tape.Advances.mark (by decide) _).seq fun _ => .pure _
  · next ht =>
    exact .advance (by simp [ht]) fun _ => h.seq fun e =>
      (Tape.Advances.mark (by decide) _).seq fun _ => .pure e
  · next ht =>
    exact .advance (by simp [ht]) fun _ => (advances_elements h).seq fun es =>
      (Tape.Advances.mark (by decide) _).seq fun _ => .pure _
  · exact Tape.Advances.unmet _ t

theorem advances_withSign (hsigned : x.Advances 0 (depth - 1) signed)
    (hunsigned : x.Advances 1 depth unsigned) :
    x.Advances 1 depth (withSign signed unsigned) := by
  refine .peek fun t => ?_
  rcases hop : signOperator? t.kind with _ | op
  · exact hunsigned t
  · exact .advance (kind_ne_endOfText_of_sign hop) fun _ => hsigned.seq fun e => .pure _

end Expressions

/-- The units that a level takes on the way to the first token. -/
def Level.units : Level → Nat
  | .whole => 24
  | .disjunction => 22
  | .conjunction => 19
  | .equality => 16
  | .comparison => 13
  | .sum => 10
  | .product => 7
  | .signed => 4
  | .primary => 2

theorem Level.units_le (level : Level) : level.units ≤ 24 := by
  rcases level <;> decide

theorem Level.two_le_units (level : Level) : 2 ≤ level.units := by
  rcases level <;> decide

theorem Level.units_of_mem_binary {level : Level} (h : level ∈ Level.binary) :
    level.units = level.tighter.units + 3 := by
  simp only [Level.binary, List.mem_cons, List.not_mem_nil, or_false] at h
  rcases h with rfl | rfl | rfl | rfl | rfl | rfl <;> rfl

/-- **Every expression takes a token**, and a budget suffices for `depth` tokens ahead if it has 24
units for each of them beside those of the level. -/
theorem advances_expression {x : Tape} (n : Nat) : ∀ (level : Level) {depth : Int},
    level.units + 24 * depth ≤ n → x.Advances 1 depth (expression n level) := by
  induction n using Nat.strong_induction_on with
  | _ n ih =>
    intro level depth h
    fun_cases expression n level with
    | case1 budget =>
      exact ih budget (by omega) .disjunction (by simp only [Level.units] at h ⊢; omega)
    | case2 budget =>
      have hsigned := ih budget (by omega) .signed (show _ + 24 * (depth - 1) ≤ _ by
        simp only [Level.units] at h ⊢; omega)
      exact advances_withSign hsigned.weaken
        (ih budget (by omega) .primary (by simp only [Level.units] at h ⊢; omega))
    | case3 budget =>
      have hinner := ih budget (by omega) .whole (show _ + 24 * (depth - 1) ≤ _ by
        simp only [Level.units] at h ⊢; omega)
      exact advances_primary hinner.weaken
    | case4 budget level h1 h2 h3 =>
      have hlevel := Level.mem_binary h1 h2 h3
      have hunits := Level.units_of_mem_binary hlevel
      exact advances_operands (ih budget (by omega) level.tighter (by push_cast at h; omega))
    | case5 n level hwhole hsigned hprimary hbinary =>
      have hfew : n < 3 := Nat.lt_of_not_le fun hn => hbinary (n - 3) (by omega)
      have hunits : n < level.units := by
        rcases Nat.lt_or_ge n 2 with hn | hn
        · exact Nat.lt_of_lt_of_le hn level.two_le_units
        · obtain rfl : n = 2 := by omega
          rcases level <;> simp_all [Level.units]
      exact .tooDeep (by omega)

/-! ## Parts of statements -/

section Parts

variable {x : Tape} {depth : Int} {expr : Parser Expr}

theorem advances_declaration (h : x.Advances 0 (depth - 1) expr) :
    x.Advances 1 depth (declaration expr) :=
  (Tape.Advances.mark (by decide) _).first fun _ => (Tape.Advances.name _).seq fun name =>
    (Tape.Advances.mark (by decide) _).seq fun _ => h.seq fun value =>
    (Tape.Advances.mark (by decide) _).seq fun _ => .pure _

theorem advances_assignmentTail (h : x.Advances 0 depth expr) (name : Token) :
    x.Advances 0 depth (assignmentTail expr name) :=
  (Tape.Advances.mark (by decide) _).seq fun _ => h.seq fun value =>
    (Tape.Advances.mark (by decide) _).seq fun _ => .pure _

theorem advances_elementAssignmentTail (h : x.Advances 0 depth expr) (name : Token) :
    x.Advances 0 depth (elementAssignmentTail expr name) :=
  h.seq fun index => (Tape.Advances.mark (by decide) _).seq fun _ =>
    (Tape.Advances.mark (by decide) _).seq fun _ => h.seq fun value =>
    (Tape.Advances.mark (by decide) _).seq fun _ => .pure _

theorem advances_bareAssignment (h : x.Advances 0 (depth - 1) expr) :
    x.Advances 1 depth (bareAssignment expr) :=
  (Tape.Advances.name _).first fun name => (Tape.Advances.mark (by decide) _).seq fun _ =>
    h.seq fun value => .pure _

theorem advances_forInit {declared : Parser Binding} (hdeclared : x.Advances 0 depth declared)
    (h : x.Advances 0 depth expr) : x.Advances 0 depth (forInit declared expr) := by
  refine (Tape.Advances.check _).seq fun b => ?_
  split
  · exact hdeclared.seq fun b => .pure _
  refine (Tape.Advances.check _).seq fun b => ?_
  split
  · exact (Tape.Advances.mark (by decide) _).seq fun _ => .pure _
  · exact (Tape.Advances.name _).seq fun name => (advances_assignmentTail h name).seq fun b =>
      .pure _

theorem advances_forCondition (h : x.Advances 0 depth expr) :
    x.Advances 0 depth (forCondition expr) := by
  refine (Tape.Advances.check _).seq fun b => ?_
  split
  · exact (Tape.Advances.mark (by decide) _).seq fun _ => .pure none
  · exact (h.map some).seq fun condition => (Tape.Advances.mark (by decide) _).seq fun _ =>
      .pure condition

theorem advances_forIncrement {assigned : Parser Binding} (h : x.Advances 0 depth assigned) :
    x.Advances 0 depth (forIncrement assigned) := by
  refine (Tape.Advances.check _).seq fun b => ?_
  split
  · exact .pure none
  · exact h.seq fun b => .pure _

end Parts

/-! ## Statements -/

section Forms

variable {x : Tape} {depth : Int} {expr : Parser Expr} {statement : Parser Stmt}
  {body : Parser (List Stmt × Int)}

theorem advances_statementRound {ended : Parser Bool} (hended : x.Advances 0 depth ended)
    (h : x.Advances 0 depth statement) (read : List Stmt) :
    x.Advances 0 depth (statementRound ended statement read) := by
  refine hended.seq fun b => ?_
  split
  · exact .pure none
  · exact h.seq fun s => .pure _

theorem advances_braces (h : x.Advances 0 (depth - 1) statement) :
    x.Advances 1 depth (braces statement) := by
  have hended : x.Advances 0 (depth - 1) blockEnded :=
    (Tape.Advances.check _).seq fun _ => Tape.Advances.atEnd.seq fun _ => .pure _
  rw [braces, statementsUntilBrace_eq_repeatUpTo]
  exact (Tape.Advances.mark (by decide) _).first fun brace =>
    Tape.Advances.tokensAhead.seq fun rounds =>
    (Tape.Advances.repeatUpTo (advances_statementRound hended h) rounds []).seq fun read =>
    (Tape.Advances.mark (by decide) _).seq fun _ => .pure _

theorem advances_assignment (h : x.Advances 0 (depth - 1) expr) :
    x.Advances 1 depth (assignment expr) := by
  refine (Tape.Advances.name _).first fun name => (Tape.Advances.accept _).seq fun opening => ?_
  rcases opening with _ | opening
  · exact (advances_assignmentTail h name).seq fun b => .pure _
  · exact advances_elementAssignmentTail h name

theorem advances_output (h : x.Advances 0 (depth - 1) expr) : x.Advances 1 depth (output expr) :=
  (Tape.Advances.mark (by decide) _).first fun keyword =>
    (Tape.Advances.mark (by decide) _).seq fun _ =>
    h.seq fun value => (Tape.Advances.mark (by decide) _).seq fun _ =>
    (Tape.Advances.mark (by decide) _).seq fun _ => .pure _

theorem advances_conditional (h : x.Advances 0 (depth - 1) expr)
    (hbody : x.Advances 0 (depth - 1) body) : x.Advances 1 depth (conditional expr body) := by
  refine (Tape.Advances.mark (by decide) _).first fun keyword =>
    (Tape.Advances.mark (by decide) _).seq fun _ => h.seq fun condition =>
    (Tape.Advances.mark (by decide) _).seq fun _ => hbody.seq fun taken =>
    (Tape.Advances.accept _).seq fun separator => ?_
  rcases separator with _ | separator
  · exact .pure _
  · exact hbody.seq fun otherwise => .pure _

theorem advances_whileLoop (h : x.Advances 0 (depth - 1) expr)
    (hbody : x.Advances 0 (depth - 1) body) : x.Advances 1 depth (whileLoop expr body) :=
  (Tape.Advances.mark (by decide) _).first fun keyword =>
    (Tape.Advances.mark (by decide) _).seq fun _ =>
    h.seq fun condition => (Tape.Advances.mark (by decide) _).seq fun _ =>
    hbody.seq fun statements => .pure _

theorem advances_forLoop {declared assigned : Parser Binding}
    (hdeclared : x.Advances 0 (depth - 1) declared) (hassigned : x.Advances 0 (depth - 1) assigned)
    (h : x.Advances 0 (depth - 1) expr) (hbody : x.Advances 0 (depth - 1) body) :
    x.Advances 1 depth (forLoop declared assigned expr body) :=
  (Tape.Advances.mark (by decide) _).first fun keyword =>
    (Tape.Advances.mark (by decide) _).seq fun _ =>
    (advances_forInit hdeclared h).seq fun init => (advances_forCondition h).seq fun condition =>
    (advances_forIncrement hassigned).seq fun increment =>
    (Tape.Advances.mark (by decide) _).seq fun _ => hbody.seq fun statements => .pure _

end Forms

/-- The units that a form takes on the way to its first token. -/
def Form.units : Form → Nat
  | .any => 4
  | _ => 2

theorem Form.units_le (form : Form) : form.units ≤ 4 := by
  rcases form <;> decide

/-- The clauses of a `for` loop stand after its first token, and begin with one of their own. -/
theorem advances_innerDeclaration {x : Tape} {n : Nat} {depth : Int} (h : 24 * depth ≤ n) :
    x.Advances 0 (depth - 1) (innerDeclaration n) := by
  rcases n with _ | _ | n
  · exact .tooDeep (by omega)
  · exact .tooDeep (by omega)
  · have hexpr : x.Advances 1 (depth - 2) (expression n .whole) :=
      advances_expression n .whole (by simp only [Level.units]; omega)
    exact (advances_declaration (hexpr.weaken.mono le_rfl (by omega))).weaken

theorem advances_innerAssignment {x : Tape} {n : Nat} {depth : Int} (h : 24 * depth ≤ n) :
    x.Advances 0 (depth - 1) (innerAssignment n) := by
  rcases n with _ | n
  · exact .tooDeep (by omega)
  · have hexpr : x.Advances 1 (depth - 2) (expression n .whole) :=
      advances_expression n .whole (by simp only [Level.units]; omega)
    exact (advances_bareAssignment (hexpr.weaken.mono le_rfl (by omega))).weaken

/-- The body of a conditional or of a loop stands after its first token and begins with a brace. -/
theorem advances_bodyParser {x : Tape} {n : Nat} {depth : Int} (hdepth : 24 * depth ≤ n)
    (hstatement : ∀ m, n = m + 2 → x.Advances 1 (depth - 2) (statement m .any)) :
    x.Advances 0 (depth - 1) (bodyParser n) := by
  rcases n with _ | _ | m
  · exact .tooDeep (by omega)
  · exact .tooDeep (by omega)
  · have h := (hstatement m rfl).weaken
    exact (advances_braces (h.mono le_rfl (by omega))).weaken

/-- **Every statement takes a token**, and a budget suffices for `depth` tokens ahead if it has 24
units for each of them beside those of the form. -/
theorem advances_statement {x : Tape} (n : Nat) : ∀ (form : Form) {depth : Int},
    form.units + 24 * depth ≤ n → x.Advances 1 depth (statement n form) := by
  induction n using Nat.strong_induction_on with
  | _ n ih =>
    intro form depth h
    have hform : 2 ≤ form.units := by rcases form <;> decide
    rcases n with _ | _ | n
    · exact .tooDeep (by omega)
    · exact .tooDeep (by omega)
    have hdepth : 24 * depth ≤ n := by omega
    have hexpr : x.Advances 0 (depth - 1) (expression n .whole) :=
      (advances_expression n .whole (by simp only [Level.units]; omega)).weaken
    have hbody : x.Advances 0 (depth - 1) (bodyParser n) := advances_bodyParser hdepth fun m hm =>
      ih m (by omega) .any (by simp only [Form.units]; omega)
    cases form with
    | any =>
      rw [statement_any]
      refine .peek fun t => ih n (by omega) _ ?_ t
      have hunits : (Form.of t.kind).units = 2 := by rcases t.kind <;> rfl
      rw [hunits]
      simp only [Form.units] at h
      omega
    | block =>
      rw [statement_block]
      have hinner := (ih n (by omega) .any
        (show _ + 24 * (depth - 1) ≤ _ by simp only [Form.units]; omega)).weaken
      exact (advances_braces hinner).first fun b => .pure _
    | declaration => exact statement_declaration n ▸ (advances_declaration hexpr).map _
    | assignment => exact statement_assignment n ▸ advances_assignment hexpr
    | output => exact statement_output n ▸ advances_output hexpr
    | conditional => exact statement_conditional n ▸ advances_conditional hexpr hbody
    | whileLoop => exact statement_whileLoop n ▸ advances_whileLoop hexpr hbody
    | forLoop =>
      exact statement_forLoop n ▸ advances_forLoop (advances_innerDeclaration hdepth)
        (advances_innerAssignment hdepth) hexpr hbody

theorem advances_programWithin {x : Tape} {n : Nat} {depth : Int} (h : 4 + 24 * depth ≤ n) :
    x.Advances 0 depth (programWithin n) := by
  have hstatement := (advances_statement (x := x) n .any h).weaken
  rw [programWithin, statementsUntilEnd_eq_repeatUpTo]
  exact Tape.Advances.tokensAhead.seq fun rounds =>
    (Tape.Advances.repeatUpTo (advances_statementRound .atEnd hstatement) rounds []).seq fun read =>
    .pure _

end Scriptlet.Grammar
