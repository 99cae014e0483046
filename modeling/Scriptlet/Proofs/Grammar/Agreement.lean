import Mathlib
import Scriptlet.Proofs.Grammar.Completeness
import Scriptlet.Proofs.Grammar.Parallel

/-!
# All parsers read what is shared alike

Every parser of the grammar runs alongside itself in another text, and alongside the same parser
with a larger nesting budget.  The proofs go down the definitions, one rule of `Comparison.Parallel`
for each move; only the loops need more, since they count the tokens ahead and the two texts may
have different numbers of them.  There the induction is on the rounds of one loop, and both loops
have as many rounds left as they have tokens ahead.

## What is here

* `follows_loop` — the one induction over rounds, which all loops of the grammar share.
* `Comparison.Budgets n m` — the budgets that two parsers may have.
* `parallel_expression`, `advancing_statement` — the two parsers that count down a budget.
* `parallel_programWithin` — programs.
-/

set_option autoImplicit false
namespace Scriptlet.Grammar

open Comparison

variable {X : Comparison}

/-! ## Loops -/

section Loops

/-- **Two loops run alongside each other** if they do at the end of the text and if each round does
that moves over a token and then goes on.  Each loop has rounds for all the tokens ahead of it. -/
theorem follows_loop {σ β γ δ : Type} {view : σ → γ} {out : β → δ} {loop loop' : Nat → σ → Parser β}
    (hend : ∀ {n n' s s' k}, view s = view s' → X.Follows out (loop n s) (loop' n' s') k [] [])
    (hround : ∀ {n n' s s' k t u ts us}, view s = view s' → k ≤ X.limit →
      Shared (X.limit - k) (t :: ts) (u :: us) →
      (∀ {m r r'}, 1 ≤ m → k + m ≤ X.limit → view r = view r' →
        X.Follows out (loop n r) (loop' n' r') (k + m) ((t :: ts).drop m) ((u :: us).drop m)) →
      X.Follows out (loop (n + 1) s) (loop' (n' + 1) s') k (t :: ts) (u :: us))
    (n : Nat) : ∀ {n' s s' k ts us}, ts.length ≤ n → us.length ≤ n' → view s = view s' →
      k ≤ X.limit → Shared (X.limit - k) ts us →
        X.Follows out (loop n s) (loop' n' s') k ts us := by
  induction n using Nat.strong_induction_on with
  | _ n ih =>
    intro n' s s' k ts us hts hus hview hk hshared
    obtain ⟨rfl, rfl⟩ | ⟨t, u, ts, us, rfl, rfl, -⟩ := hshared.cases
    · exact hend hview
    obtain ⟨n, rfl⟩ : ∃ i, n = i + 1 := Nat.exists_eq_add_of_le' (le_trans (by simp) hts)
    obtain ⟨n', rfl⟩ : ∃ i, n' = i + 1 := Nat.exists_eq_add_of_le' (le_trans (by simp) hus)
    refine hround hview hk hshared fun {m r r'} hm hlimit hr => ?_
    refine ih n (Nat.lt_succ_self n) ?_ ?_ hr hlimit (hshared.sub_drop hlimit)
    · rw [List.length_drop]
      omega
    · rw [List.length_drop]
      omega

theorem moves_foldOperands {operator? : TokenKind → Option BinaryOp} {operand : Parser Expr}
    (h : Moves operand) (rounds : Nat) :
    ∀ left, Moves (foldOperands operator? operand rounds left) := by
  induction rounds with
  | zero => exact fun left => .pure left
  | succ rounds ih =>
    refine fun left => Moves.peek.bind fun t => ?_
    split
    · exact .pure left
    · exact Moves.advance.bind fun _ => h.bind fun right => ih _

theorem parallel_operands {level : Level} {operand operand' : Parser Expr}
    (h : X.Parallel Expr.unlined operand operand') :
    X.Parallel Expr.unlined (operands level.operator? operand)
      (operands level.operator? operand') := by
  refine h.bind fun left left' hleft => .tokensAhead (fun _ => moves_foldOperands h.moves _ _)
    fun hk hshared => follows_loop ?_ ?_ _ le_rfl le_rfl hleft hk hshared
  · intro n n' left left' k hleft
    have hend : level.operator? (kindAhead []) = none := level.operator?_endOfText
    exact (Follows.pure hleft).congr (fun _ => run_foldOperands_stop hend _ _)
      fun _ => run_foldOperands_stop hend _ _
  · intro n n' left left' k t u ts us hleft hk hshared hloop
    refine .peek ?_
    rw [(Token.unlined_eq_iff.1 hshared.head).1]
    split
    · exact .pure hleft
    · refine (Parallel.advance.follows hk hshared).bind .advance
        (fun _ => h.moves.bind fun _ => moves_foldOperands h.moves _ _) ?_
      intro line m _ _ _ hm hrun
      obtain rfl : 1 = m := moved_of_advance hrun
      refine (h.follows hm (hshared.sub_drop hm)).bind h.moves
        (fun _ => moves_foldOperands h.moves _ _) ?_
      intro line m right right' hright hm' _
      rw [Nat.add_assoc, List.drop_drop, List.drop_drop]
      exact hloop (by omega) (by omega) (by simp [Expr.relabel, hleft, hright])

theorem moves_moreElements {element : Parser Expr} (h : Moves element) (rounds : Nat) :
    ∀ read, Moves (moreElements element rounds read) := by
  induction rounds with
  | zero => exact fun read => .pure read
  | succ rounds ih =>
    refine fun read => (Moves.accept _).bind fun comma => ?_
    cases comma with
    | none => exact .pure read
    | some comma => exact h.bind fun e => ih _

theorem follows_moreElements {element element' : Parser Expr}
    (h : X.Parallel Expr.unlined element element') (rounds : Nat) :
    ∀ {rounds' read read' k ts us}, ts.length ≤ rounds → us.length ≤ rounds' →
      read.map Expr.unlined = read'.map Expr.unlined → k ≤ X.limit → Shared (X.limit - k) ts us →
      X.Follows (List.map Expr.unlined) (moreElements element rounds read)
        (moreElements element' rounds' read') k ts us := by
  refine follows_loop ?_ ?_ rounds
  · intro n n' read read' k hread
    exact (Follows.pure hread).congr (fun _ => by cases n <;> rfl) fun _ => by cases n' <;> rfl
  · intro n n' read read' k t u ts us hread hk hshared hloop
    refine ((Parallel.accept _).follows hk hshared).bind (.accept _) ?_ ?_
    · rintro (_ | comma)
      · exact .pure read
      · exact h.moves.bind fun e => moves_moreElements h.moves _ _
    rintro line m (_ | comma) (_ | comma') hcomma hm hrun
    · exact .pure hread
    · cases hcomma
    · cases hcomma
    obtain rfl : 1 = m := moved_of_accept hrun
    refine (h.follows hm (hshared.sub_drop hm)).bind h.moves
      (fun _ => moves_moreElements h.moves _ _) ?_
    intro line m e e' he hm' _
    rw [Nat.add_assoc, List.drop_drop, List.drop_drop]
    exact hloop (by omega) (by omega) (by simp [he, hread])

theorem parallel_elements {element element' : Parser Expr}
    (h : X.Parallel Expr.unlined element element') :
    X.Parallel (List.map Expr.unlined) (elements element) (elements element') := by
  refine .check_bind fun b => ?_
  cases b with
  | true => exact .pure rfl
  | false =>
    refine h.bind fun first first' hfirst => .tokensAhead_bind
      (fun n => moves_moreElements h.moves n _)
      (follows_moreElements h _ le_rfl le_rfl (by simp [hfirst])) fun all all' hall => ?_
    exact .pure (by rw [List.map_reverse, List.map_reverse, hall])

end Loops

/-! ## Expressions -/

section Expressions

variable {inner inner' : Parser Expr}

theorem parallel_primary (h : X.Parallel Expr.unlined inner inner') :
    X.Parallel Expr.unlined (primary inner) (primary inner') := by
  refine Parallel.peek.bind fun t u ht => ?_
  obtain ⟨hkind, hlexeme⟩ := Token.unlined_eq_iff.1 ht
  rw [hkind, hlexeme]
  split
  · exact Parallel.advance.bind fun _ _ _ => .pure rfl
  · exact Parallel.advance.bind fun _ _ _ => .pure rfl
  · exact Parallel.advance.bind fun _ _ _ => .pure rfl
  · refine Parallel.advance.bind fun _ _ _ => .accept_bind (.pure rfl) fun _ _ => ?_
    exact h.bind fun index index' hindex => .bind (.eat _ _) fun _ _ _ =>
      .pure (by simp [Expr.relabel, hindex])
  · exact Parallel.advance.bind fun _ _ _ => h.bind fun e e' he => .bind (.eat _ _) fun _ _ _ =>
      .pure he
  · refine Parallel.advance.bind fun _ _ _ => (parallel_elements h).bind fun es es' hes =>
      .bind (.eat _ _) fun _ _ _ => .pure ?_
    simp [Expr.relabel, Expr.relabelAll_eq_map, hes]
  · exact .stop _

theorem parallel_withSign {signed signed' unsigned unsigned' : Parser Expr}
    (hsigned : X.Parallel Expr.unlined signed signed')
    (hunsigned : X.Parallel Expr.unlined unsigned unsigned') :
    X.Parallel Expr.unlined (withSign signed unsigned) (withSign signed' unsigned') := by
  refine Parallel.peek.bind fun t u ht => ?_
  rw [(Token.unlined_eq_iff.1 ht).1]
  split
  · exact Parallel.advance.bind fun _ _ _ => hsigned.bind fun e e' he =>
      .pure (by simp [Expr.relabel, he])
  · exact hunsigned

/-- The budgets of two parsers that run alongside each other: the second may be larger, unless
running out of it counts. -/
def Comparison.Budgets (X : Comparison) (n m : Nat) : Prop :=
  n ≤ m ∧ (X.counted .tooDeep → n = m)

theorem Comparison.Budgets.exists_add {n m i : Nat} (h : X.Budgets (n + i) m) :
    ∃ j, m = j + i ∧ X.Budgets n j := by
  obtain ⟨j, rfl, hj⟩ := exists_add_of_le h.1
  exact ⟨j, rfl, hj, fun hcounted => Nat.add_right_cancel (h.2 hcounted)⟩

/-- Running out of the budget is followed by the same, or does not count. -/
theorem parallel_tooDeep {α γ : Type} {view : α → γ} {q : Parser α}
    (h : X.counted .tooDeep → q = stop .tooDeep) : X.Parallel view (stop .tooDeep) q := by
  by_cases hcounted : X.counted .tooDeep
  · rw [h hcounted]
    exact .stop _
  · exact .stop_uncounted hcounted _

/-- **The parsers of a level run alongside each other.** -/
theorem parallel_expression (n : Nat) : ∀ {m} level, X.Budgets n m →
    X.Parallel Expr.unlined (expression n level) (expression m level) := by
  induction n using Nat.strong_induction_on with
  | _ n ih =>
    intro m level h
    fun_cases expression n level with
    | case1 budget =>
      obtain ⟨j, rfl, hj⟩ := h.exists_add (n := budget) (i := 2)
      exact ih budget (by omega) .disjunction hj
    | case2 budget =>
      obtain ⟨j, rfl, hj⟩ := h.exists_add (n := budget) (i := 2)
      exact parallel_withSign (ih budget (by omega) .signed hj) (ih budget (by omega) .primary hj)
    | case3 budget =>
      obtain ⟨j, rfl, hj⟩ := h.exists_add (n := budget) (i := 2)
      exact parallel_primary (ih budget (by omega) .whole hj)
    | case4 budget level h1 h2 h3 =>
      obtain ⟨j, rfl, hj⟩ := h.exists_add (n := budget) (i := 3)
      rw [expression_binary (Level.mem_binary h1 h2 h3)]
      exact parallel_operands (ih budget (by omega) level.tighter hj)
    | case5 =>
      refine parallel_tooDeep fun hcounted => ?_
      obtain rfl := h.2 hcounted
      rw [expression.eq_def]
      split <;> simp_all

end Expressions

/-! ## Parts of statements -/

section Parts

variable {expr expr' : Parser Expr}

theorem advancing_declaration (h : X.Parallel Expr.unlined expr expr') :
    X.Advancing Binding.unlined (declaration expr) (declaration expr') := by
  refine .bind (.eat (by decide) _) fun _ _ _ => .bind (.eat _ _) fun name name' hn =>
    .bind (.eat _ _) fun _ _ _ => h.bind fun value value' hv => .bind (.eat _ _) fun _ _ _ =>
    .pure ?_
  simp [Binding.relabel, (Token.unlined_eq_iff.1 hn).2, hv]

theorem parallel_assignmentTail (h : X.Parallel Expr.unlined expr expr') {name name' : Token}
    (hn : name.unlined = name'.unlined) :
    X.Parallel Binding.unlined (assignmentTail expr name) (assignmentTail expr' name') := by
  refine .bind (.eat _ _) fun _ _ _ => h.bind fun value value' hv => .bind (.eat _ _) fun _ _ _ =>
    .pure ?_
  simp [Binding.relabel, (Token.unlined_eq_iff.1 hn).2, hv]

theorem parallel_elementAssignmentTail (h : X.Parallel Expr.unlined expr expr')
    {name name' : Token} (hn : name.unlined = name'.unlined) :
    X.Parallel Stmt.unlined (elementAssignmentTail expr name)
      (elementAssignmentTail expr' name') := by
  refine h.bind fun index index' hi => .bind (.eat _ _) fun _ _ _ => .bind (.eat _ _) fun _ _ _ =>
    h.bind fun value value' hv => .bind (.eat _ _) fun _ _ _ => .pure ?_
  simp [Stmt.relabel, (Token.unlined_eq_iff.1 hn).2, hi, hv]

theorem parallel_bareAssignment (h : X.Parallel Expr.unlined expr expr') :
    X.Parallel Binding.unlined (bareAssignment expr) (bareAssignment expr') := by
  refine .bind (.eat _ _) fun name name' hn => .bind (.eat _ _) fun _ _ _ =>
    h.bind fun value value' hv => .pure ?_
  simp [Binding.relabel, (Token.unlined_eq_iff.1 hn).2, hv]

theorem parallel_forInit {declared declared' : Parser Binding}
    (hdeclared : X.Parallel Binding.unlined declared declared')
    (h : X.Parallel Expr.unlined expr expr') :
    X.Parallel (Option.map ForInit.unlined) (forInit declared expr) (forInit declared' expr') := by
  refine .check_bind fun b => ?_
  cases b with
  | true => exact hdeclared.bind fun b b' hb => .pure (by simp [ForInit.relabel, hb])
  | false =>
    refine .check_bind fun b => ?_
    cases b with
    | true => exact .bind (.eat _ _) fun _ _ _ => .pure rfl
    | false =>
      exact .bind (.eat _ _) fun name name' hn => (parallel_assignmentTail h hn).bind
        fun b b' hb => .pure (by simp [ForInit.relabel, hb])

theorem parallel_forCondition (h : X.Parallel Expr.unlined expr expr') :
    X.Parallel (Option.map Expr.unlined) (forCondition expr) (forCondition expr') := by
  have hsome : X.Parallel (Option.map Expr.unlined) (some <$> expr) (some <$> expr') :=
    h.map fun e e' he => by simp [he]
  have hnone : X.Parallel (Option.map Expr.unlined) (pure none) (pure none) := .pure rfl
  refine .check_bind fun b => ?_
  cases b with
  | true => exact hnone.bind fun c c' hc => .bind (.eat _ _) fun _ _ _ => .pure hc
  | false => exact hsome.bind fun c c' hc => .bind (.eat _ _) fun _ _ _ => .pure hc

theorem parallel_forIncrement {assigned assigned' : Parser Binding}
    (h : X.Parallel Binding.unlined assigned assigned') :
    X.Parallel (Option.map Binding.unlined) (forIncrement assigned) (forIncrement assigned') := by
  refine .check_bind fun b => ?_
  cases b with
  | true => exact .pure rfl
  | false => exact h.bind fun b b' hb => .pure (by simp [hb])

end Parts

/-! ## Blocks -/

section Blocks

/-- The statements of a body, on no line in particular. -/
def unlinedBody (body : List Stmt × Int) : List Stmt :=
  body.1.map Stmt.unlined

variable {statement statement' : Parser Stmt}

theorem moves_statementsUntilBrace (h : Moves statement) (rounds : Nat) :
    ∀ read, Moves (statementsUntilBrace statement rounds read) := by
  induction rounds with
  | zero => exact fun read => .pure read
  | succ rounds ih =>
    refine fun read => (Moves.check _).bind fun b => Moves.atEnd.bind fun b' => ?_
    split
    · exact .pure read
    · exact h.bind fun s => ih _

theorem moves_statementsUntilEnd (h : Moves statement) (rounds : Nat) :
    ∀ read, Moves (statementsUntilEnd statement rounds read) := by
  induction rounds with
  | zero => exact fun read => .pure read
  | succ rounds ih =>
    refine fun read => Moves.atEnd.bind fun b => ?_
    split
    · exact .pure read
    · exact h.bind fun s => ih _

/-- One round of a loop over statements. -/
theorem follows_nextStatement {loop loop' : List Stmt → Parser (List Stmt)} {k : Nat}
    {ts us : List Token} {read read' : List Stmt}
    (h : X.Advancing Stmt.unlined statement statement') (hmoves : ∀ read, Moves (loop read))
    (hread : read.map Stmt.unlined = read'.map Stmt.unlined) (hk : k ≤ X.limit)
    (hshared : Shared (X.limit - k) ts us)
    (hloop : ∀ {m r r'}, 1 ≤ m → k + m ≤ X.limit → r.map Stmt.unlined = r'.map Stmt.unlined →
      X.Follows (List.map Stmt.unlined) (loop r) (loop' r') (k + m) (ts.drop m) (us.drop m)) :
    X.Follows (List.map Stmt.unlined) (statement >>= fun s => loop (s :: read))
      (statement' >>= fun s => loop' (s :: read')) k ts us := by
  refine (h.follows hk hshared).bind h.moves (fun s => hmoves _) fun {line m s s'} hs hm hrun => ?_
  exact hloop (h.takes.ok hrun) hm (by simp [hs, hread])

theorem follows_statementsUntilBrace (h : X.Advancing Stmt.unlined statement statement')
    (rounds : Nat) :
    ∀ {rounds' read read' k ts us}, ts.length ≤ rounds → us.length ≤ rounds' →
      read.map Stmt.unlined = read'.map Stmt.unlined → k ≤ X.limit → Shared (X.limit - k) ts us →
      X.Follows (List.map Stmt.unlined) (statementsUntilBrace statement rounds read)
        (statementsUntilBrace statement' rounds' read') k ts us := by
  refine follows_loop ?_ ?_ rounds
  · intro n n' read read' k hread
    exact (Follows.pure hread).congr (fun _ => by cases n <;> rfl) fun _ => by cases n' <;> rfl
  · intro n n' read read' k t u ts us hread hk hshared hloop
    refine .check (.atEnd ?_)
    rw [(Token.unlined_eq_iff.1 hshared.head).1]
    split
    · exact .pure hread
    · exact follows_nextStatement h (moves_statementsUntilBrace h.moves n) hread hk hshared hloop

theorem follows_statementsUntilEnd (h : X.Advancing Stmt.unlined statement statement')
    (rounds : Nat) :
    ∀ {rounds' read read' k ts us}, ts.length ≤ rounds → us.length ≤ rounds' →
      read.map Stmt.unlined = read'.map Stmt.unlined → k ≤ X.limit → Shared (X.limit - k) ts us →
      X.Follows (List.map Stmt.unlined) (statementsUntilEnd statement rounds read)
        (statementsUntilEnd statement' rounds' read') k ts us := by
  refine follows_loop ?_ ?_ rounds
  · intro n n' read read' k hread
    exact (Follows.pure hread).congr (fun _ => by cases n <;> rfl) fun _ => by cases n' <;> rfl
  · intro n n' read read' k t u ts us hread hk hshared hloop
    exact .atEnd (follows_nextStatement h (moves_statementsUntilEnd h.moves n) hread hk hshared
      hloop)

theorem advancing_braces (h : X.Advancing Stmt.unlined statement statement') :
    X.Advancing unlinedBody (braces statement) (braces statement') := by
  refine .bind (.eat (by decide) _) fun _ _ _ => .tokensAhead_bind
    (fun n => moves_statementsUntilBrace h.moves n _)
    (follows_statementsUntilBrace h _ le_rfl le_rfl rfl) fun read read' hread => ?_
  exact .bind (.eat _ _) fun _ _ _ => .pure (by simp [unlinedBody, hread])

end Blocks

/-! ## Statements -/

section Forms

variable {expr expr' : Parser Expr} {body body' : Parser (List Stmt × Int)}

theorem advancing_assignment (h : X.Parallel Expr.unlined expr expr') :
    X.Advancing Stmt.unlined (assignment expr) (assignment expr') := by
  refine .bind (.eat (by decide) _) fun name name' hn => .accept_bind ?_ fun _ _ => ?_
  · exact (parallel_assignmentTail h hn).bind fun b b' hb => .pure (by simp [Stmt.relabel, hb])
  · exact parallel_elementAssignmentTail h hn

theorem advancing_output (h : X.Parallel Expr.unlined expr expr') :
    X.Advancing Stmt.unlined (output expr) (output expr') := by
  refine .bind (.eat (by decide) _) fun _ _ _ => .bind (.eat _ _) fun _ _ _ =>
    h.bind fun value value' hv => .bind (.eat _ _) fun _ _ _ => .bind (.eat _ _) fun _ _ _ =>
    .pure ?_
  simp [Stmt.relabel, hv]

theorem unlinedBody_eq {ss ss' : List Stmt} {line line' : Int}
    (h : unlinedBody (ss, line) = unlinedBody (ss', line')) :
    Stmt.relabelAll noLines ss = Stmt.relabelAll noLines ss' := by
  rwa [Stmt.relabelAll_eq_map, Stmt.relabelAll_eq_map]

theorem advancing_conditional (h : X.Parallel Expr.unlined expr expr')
    (hbody : X.Parallel unlinedBody body body') :
    X.Advancing Stmt.unlined (conditional expr body) (conditional expr' body') := by
  refine .bind (.eat (by decide) _) fun _ _ _ => .bind (.eat _ _) fun _ _ _ => h.bind fun e e' he =>
    .bind (.eat _ _) fun _ _ _ => hbody.bind ?_
  rintro ⟨taken, takenLine⟩ ⟨taken', takenLine'⟩ htaken
  refine .accept_bind ?_ fun _ _ => ?_
  · exact .pure (by simp [Stmt.relabel, he, unlinedBody_eq htaken])
  · refine hbody.bind ?_
    rintro ⟨otherwise, otherwiseLine⟩ ⟨otherwise', otherwiseLine'⟩ hotherwise
    exact .pure (by simp [Stmt.relabel, he, unlinedBody_eq htaken, unlinedBody_eq hotherwise])

theorem advancing_whileLoop (h : X.Parallel Expr.unlined expr expr')
    (hbody : X.Parallel unlinedBody body body') :
    X.Advancing Stmt.unlined (whileLoop expr body) (whileLoop expr' body') := by
  refine .bind (.eat (by decide) _) fun _ _ _ => .bind (.eat _ _) fun _ _ _ => h.bind fun e e' he =>
    .bind (.eat _ _) fun _ _ _ => hbody.bind ?_
  rintro ⟨statements, bodyLine⟩ ⟨statements', bodyLine'⟩ hstatements
  exact .pure (by simp [Stmt.relabel, he, unlinedBody_eq hstatements])

theorem advancing_forLoop {declared declared' assigned assigned' : Parser Binding}
    (hdeclared : X.Parallel Binding.unlined declared declared')
    (hassigned : X.Parallel Binding.unlined assigned assigned')
    (h : X.Parallel Expr.unlined expr expr') (hbody : X.Parallel unlinedBody body body') :
    X.Advancing Stmt.unlined (forLoop declared assigned expr body)
      (forLoop declared' assigned' expr' body') := by
  refine .bind (.eat (by decide) _) fun _ _ _ => .bind (.eat _ _) fun _ _ _ =>
    (parallel_forInit hdeclared h).bind fun init init' hinit =>
    (parallel_forCondition h).bind fun condition condition' hcondition =>
    (parallel_forIncrement hassigned).bind fun increment increment' hincrement =>
    .bind (.eat _ _) fun _ _ _ => hbody.bind ?_
  rintro ⟨statements, bodyLine⟩ ⟨statements', bodyLine'⟩ hstatements
  refine .pure ?_
  simp [Stmt.relabel, ForClauses.relabel, hinit, hcondition, hincrement,
    unlinedBody_eq hstatements]

end Forms

theorem parallel_innerDeclaration {n m : Nat} (h : X.Budgets n m) :
    X.Parallel Binding.unlined (innerDeclaration n) (innerDeclaration m) := by
  rcases n with _ | _ | n
  · exact parallel_tooDeep fun hcounted => h.2 hcounted ▸ rfl
  · exact parallel_tooDeep fun hcounted => h.2 hcounted ▸ rfl
  · obtain ⟨j, rfl, hj⟩ := h.exists_add (n := n) (i := 2)
    exact (advancing_declaration (parallel_expression n .whole hj)).toParallel

theorem parallel_innerAssignment {n m : Nat} (h : X.Budgets n m) :
    X.Parallel Binding.unlined (innerAssignment n) (innerAssignment m) := by
  rcases n with _ | n
  · exact parallel_tooDeep fun hcounted => h.2 hcounted ▸ rfl
  · obtain ⟨j, rfl, hj⟩ := h.exists_add (n := n) (i := 1)
    exact parallel_bareAssignment (parallel_expression n .whole hj)

theorem parallel_bodyParser {n m : Nat} (h : X.Budgets n m)
    (hstatement : ∀ i j, n = i + 2 → X.Budgets i j →
      X.Advancing Stmt.unlined (statement i .any) (statement j .any)) :
    X.Parallel unlinedBody (bodyParser n) (bodyParser m) := by
  rcases n with _ | _ | n
  · exact parallel_tooDeep fun hcounted => h.2 hcounted ▸ rfl
  · exact parallel_tooDeep fun hcounted => h.2 hcounted ▸ rfl
  · obtain ⟨j, rfl, hj⟩ := h.exists_add (n := n) (i := 2)
    exact (advancing_braces (hstatement n j rfl hj)).toParallel

/-- **The parsers of statements run alongside each other**, and a statement takes a token. -/
theorem advancing_statement (n : Nat) : ∀ {m} form, X.Budgets n m →
    X.Advancing Stmt.unlined (statement n form) (statement m form) := by
  induction n using Nat.strong_induction_on with
  | _ n ih =>
    intro m form h
    rcases n with _ | _ | n
    · exact ⟨parallel_tooDeep fun hcounted => h.2 hcounted ▸ rfl, .stop _⟩
    · exact ⟨parallel_tooDeep fun hcounted => h.2 hcounted ▸ rfl, .stop _⟩
    obtain ⟨m, rfl, hm⟩ := h.exists_add (n := n) (i := 2)
    have hexpr := parallel_expression n .whole hm
    have hbody : X.Parallel unlinedBody (bodyParser n) (bodyParser m) :=
      parallel_bodyParser hm fun i j hi hj => ih i (by omega) .any hj
    cases form with
    | any =>
      rw [statement_any, statement_any]
      refine .peek_bind fun t u ht => ?_
      rw [(Token.unlined_eq_iff.1 ht).1]
      exact ih n (by omega) _ hm
    | block =>
      rw [statement_block, statement_block]
      refine (advancing_braces (ih n (by omega) .any hm)).bind ?_
      rintro ⟨body, line⟩ ⟨body', line'⟩ hbody
      exact .pure (by simp [Stmt.relabel, unlinedBody_eq hbody])
    | declaration =>
      rw [statement_declaration, statement_declaration]
      exact (advancing_declaration hexpr).map fun b b' hb => by simp [Stmt.relabel, hb]
    | assignment =>
      rw [statement_assignment, statement_assignment]
      exact advancing_assignment hexpr
    | output =>
      rw [statement_output, statement_output]
      exact advancing_output hexpr
    | conditional =>
      rw [statement_conditional, statement_conditional]
      exact advancing_conditional hexpr hbody
    | whileLoop =>
      rw [statement_whileLoop, statement_whileLoop]
      exact advancing_whileLoop hexpr hbody
    | forLoop =>
      rw [statement_forLoop, statement_forLoop]
      exact advancing_forLoop (parallel_innerDeclaration hm) (parallel_innerAssignment hm) hexpr
        hbody

/-! ## Programs -/

/-- All statements from the cursor to the end of the text, within a nesting budget. -/
def programWithin (n : Nat) : Parser (List Stmt) := do
  return (← statementsUntilEnd (statement n .any) (← tokensAhead) []).reverse

theorem program_eq [Limits] : program = programWithin Limits.nesting := rfl

/-- **Programs run alongside each other.** -/
theorem parallel_programWithin {n m : Nat} (h : X.Budgets n m) :
    X.Parallel (List.map Stmt.unlined) (programWithin n) (programWithin m) := by
  have hstatement := advancing_statement n .any h
  refine .tokensAhead_bind (fun i => moves_statementsUntilEnd hstatement.moves i _)
    (follows_statementsUntilEnd hstatement _ le_rfl le_rfl rfl)
    fun read read' hread => ?_
  exact .pure (by rw [List.map_reverse, List.map_reverse, hread])

theorem moves_program [Limits] : Moves program :=
  (parallel_programWithin (X := ⟨0, fun _ => True⟩) ⟨le_rfl, fun _ => rfl⟩).moves

end Scriptlet.Grammar
