import Mathlib
import Scriptlet.Proofs.Grammar.Reading
import Scriptlet.Proofs.Grammar.Tables

/-!
# What is read is in the grammar

Every parser accepts only what the grammar derives, within the nesting budget it is given: the
tokens it has moved over are a derivation of the tree it returns.  The proofs go down the
definitions of the parsers, one rule of `Accepts` for each of their moves.

## What is here

* `accepts_expression` — the parser of a level accepts the expressions of that level; its loop is
  `accepts_foldOperands`, whose invariant is that what has been read so far is an expression
  already.
* `accepts_statement` — the parser of statements accepts statements, form by form.
* `Statements.of_parse` — a program that is read is derived from all of its tokens.
-/

set_option autoImplicit false
namespace Scriptlet.Grammar

/-! ## Expressions -/

/-- The loop of a level: if the tokens read so far are an expression of the level, so are all tokens
read at its end. -/
theorem accepts_foldOperands {level : Level} {n : Nat} {operand : Parser Expr}
    (hoperand : Accepts operand (Derives level.tighter n)) (rounds : Nat) :
    ∀ ts left, Derives level (n + 3) ts left →
      Accepts (foldOperands level.operator? operand rounds left)
        fun us e => Derives level (n + 3) (ts ++ us) e := by
  induction rounds with
  | zero => exact fun ts left h => .pure (by rwa [List.append_nil])
  | succ rounds ih =>
    intro ts left h
    refine .peek fun t => ?_
    rcases hop : level.operator? t.kind with _ | op
    · exact Accepts.pure (by rwa [List.append_nil]) t
    · refine .advance (kind_ne_endOfText_of_operator hop) fun _ =>
        hoperand.bind fun us right hright => ?_
      have hbinary : Derives level (n + 3) (ts ++ t :: us) (.binary left op right t.line) :=
        .binary h (joins_iff.2 hop) (Level.over_of_operator hop) hright
      refine (ih _ _ hbinary).mono fun vs e he => ?_
      rwa [List.append_assoc] at he

theorem accepts_operands {level : Level} {n : Nat} {operand : Parser Expr}
    (hlevel : level ∈ Level.binary) (hoperand : Accepts operand (Derives level.tighter n)) :
    Accepts (operands level.operator? operand) (Derives level (n + 3)) :=
  hoperand.bind fun ts left h => .tokensAhead fun rounds =>
    accepts_foldOperands hoperand rounds ts left (.operand (Level.over_iff.2 ⟨hlevel, rfl⟩) h)

theorem accepts_moreElements {n : Nat} {element : Parser Expr}
    (helement : Accepts element (Derives .whole n)) (rounds : Nat) :
    ∀ read, Accepts (moreElements element rounds read)
      fun ts all => ∃ es, all = es.reverse ++ read ∧ MoreElements n ts es := by
  induction rounds with
  | zero => exact fun read => .pure ⟨[], rfl, .nil⟩
  | succ rounds ih =>
    intro read
    refine .accept (by decide) (fun comma hcomma => helement.bind fun ts e he => ?_)
      (.pure ⟨[], rfl, .nil⟩)
    refine (ih (e :: read)).mono ?_
    rintro us all ⟨es, rfl, hes⟩
    exact ⟨e :: es, by simp, .cons hcomma he hes⟩

theorem accepts_elements {n : Nat} {element : Parser Expr}
    (helement : Accepts element (Derives .whole n)) :
    Accepts (elements element) (Elements n) := by
  refine .check _ fun b => ?_
  cases b with
  | true => exact .pure .none
  | false =>
    refine helement.bind fun ts first hfirst => .tokensAhead fun rounds => ?_
    refine (accepts_moreElements helement rounds [first]).bind ?_
    rintro us all ⟨es, rfl, hes⟩
    refine .pure ?_
    rw [List.reverse_append, List.reverse_reverse, List.append_nil]
    exact .first hfirst hes

theorem accepts_primary {n : Nat} {inner : Parser Expr}
    (hinner : Accepts inner (Derives .whole n)) :
    Accepts (primary inner) (Derives .primary (n + 2)) := by
  refine .peek fun t => ?_
  split
  · next ht => exact .advance (by simp [ht]) fun h => .pure (.number ht (h.numeral ht))
  · next ht => exact .advance (by simp [ht]) fun h => .pure (.string ht (h.string ht))
  · next ht => exact .advance (by simp [ht]) fun h => .pure (.char ht (h.char ht))
  · next ht =>
    refine .advance (by simp [ht]) fun _ =>
      .accept (by decide) (fun opening ho => ?_) (.pure (.variable ht))
    exact hinner.bind fun ts index h => .eat (by decide) fun closing hc =>
      .pure (.element ht ho h hc)
  · next ht =>
    refine .advance (by simp [ht]) fun _ =>
      hinner.bind fun ts e h => .eat (by decide) fun closing hc => ?_
    exact .pure (.group ht h hc)
  · next ht =>
    refine .advance (by simp [ht]) fun _ =>
      (accepts_elements hinner).bind fun ts es h => .eat (by decide) fun closing hc => ?_
    exact .pure (.array ht h hc)
  · exact Accepts.stop _ t

theorem accepts_withSign {n : Nat} {signed unsigned : Parser Expr}
    (hsigned : Accepts signed (Derives .signed n))
    (hunsigned : Accepts unsigned (Derives .primary n)) :
    Accepts (withSign signed unsigned) (Derives .signed (n + 2)) := by
  refine .peek fun t => ?_
  rcases hop : signOperator? t.kind with _ | op
  · exact hunsigned.mono (fun _ _ h => .unsigned h) t
  · exact .advance (kind_ne_endOfText_of_sign hop) fun _ =>
      hsigned.bind_pure fun ts e h => ⟨_, rfl, .sign (signs_iff.2 hop) h⟩

/-- **The parser of a level accepts only expressions of that level**, nested within its budget. -/
theorem accepts_expression (n : Nat) :
    ∀ level, Accepts (expression n level) (Derives level n) := by
  induction n using Nat.strong_induction_on with
  | _ n ih =>
    intro level
    fun_cases expression n level with
    | case1 budget => exact (ih budget (by omega) .disjunction).mono fun _ _ h => .whole h
    | case2 budget =>
      exact accepts_withSign (ih budget (by omega) .signed) (ih budget (by omega) .primary)
    | case3 budget => exact accepts_primary (ih budget (by omega) .whole)
    | case4 budget level h1 h2 h3 =>
      exact accepts_operands (Level.mem_binary h1 h2 h3) (ih budget (by omega) level.tighter)
    | case5 => exact .stop _

/-! ## Parts of statements -/

/-- `R`, with a semicolon after it. -/
def Ended {α : Type} (R : List Token → α → Prop) (ts : List Token) (a : α) : Prop :=
  ∃ us semicolon, ts = us ++ [semicolon] ∧ semicolon.kind = .semicolon ∧ R us a

section Parts

variable {n : Nat} {expr : Parser Expr}

theorem accepts_declaration (hexpr : Accepts expr (Derives .whole n)) :
    Accepts (declaration expr) (Ended fun ts b => Initializes (n + 2) ts (.declare b)) := by
  refine .eat (by decide) fun keyword hk => .eat (by decide) fun name hn =>
    .eat (by decide) fun equal he => hexpr.bind fun ts value h =>
    .eat (by decide) fun semicolon hs => .pure ?_
  exact ⟨keyword :: name :: equal :: ts, semicolon, rfl, hs, .declare hk (.mk hn he h)⟩

theorem accepts_assignmentTail (hexpr : Accepts expr (Derives .whole n)) {name : Token}
    (hn : name.kind = .identifier) :
    Accepts (assignmentTail expr name) fun ts => Ended (Binds n) (name :: ts) := by
  refine .eat (by decide) fun equal he => hexpr.bind fun ts value h =>
    .eat (by decide) fun semicolon hs => .pure ?_
  exact ⟨name :: equal :: ts, semicolon, rfl, hs, .mk hn he h⟩

theorem accepts_bareAssignment (hexpr : Accepts expr (Derives .whole n)) :
    Accepts (bareAssignment expr) (Binds n) :=
  .eat (by decide) fun _ hn => .eat (by decide) fun _ he =>
    hexpr.bind_pure fun _ _ h => ⟨_, rfl, .mk hn he h⟩

theorem accepts_forInit {declared : Parser Binding}
    (hdeclared : Accepts declared (Ended fun ts b => Initializes n ts (.declare b)))
    (hexpr : Accepts expr (Derives .whole n)) :
    Accepts (forInit declared expr) (Ended (Optionally (Initializes n))) := by
  refine .check _ fun b => ?_
  cases b with
  | true =>
    refine hdeclared.bind_pure ?_
    rintro _ b ⟨us, semicolon, rfl, hs, h⟩
    exact ⟨_, rfl, us, semicolon, rfl, hs, .present h⟩
  | false =>
    refine .check _ fun b => ?_
    cases b with
    | true => exact .eat (by decide) fun semicolon hs => .pure ⟨[], semicolon, rfl, hs, .missing⟩
    | false =>
      refine .eat (by decide) fun name hn => (accepts_assignmentTail hexpr hn).bind_pure ?_
      rintro ts b ⟨us, semicolon, hts, hs, h⟩
      exact ⟨_, rfl, us, semicolon, hts, hs, .present (.assign h)⟩

theorem accepts_forCondition (hexpr : Accepts expr (Derives .whole n)) :
    Accepts (forCondition expr) (Ended (Optionally (Derives .whole n))) := by
  refine .check _ fun b => ?_
  cases b with
  | true =>
    exact .eat (by decide) fun semicolon hs => .pure ⟨[], semicolon, rfl, hs, .missing⟩
  | false =>
    have hcondition : Accepts (some <$> expr) (Optionally (Derives .whole n)) :=
      hexpr.map fun ts e h => .present h
    exact hcondition.bind fun ts condition h => .eat (by decide) fun semicolon hs =>
      .pure ⟨ts, semicolon, rfl, hs, h⟩

theorem accepts_forIncrement {assigned : Parser Binding} {R : List Token → Binding → Prop}
    (hassigned : Accepts assigned R) : Accepts (forIncrement assigned) (Optionally R) := by
  refine .check _ fun b => ?_
  cases b with
  | true => exact .pure .missing
  | false => exact hassigned.bind_pure fun ts b h => ⟨_, rfl, .present h⟩

end Parts

/-! ## Statements -/

theorem accepts_statementsUntilBrace {n : Nat} {statement : Parser Stmt}
    (hstatement : Accepts statement (Statement n)) (rounds : Nat) :
    ∀ read, Accepts (statementsUntilBrace statement rounds read)
      fun ts all => ∃ ss, all = ss.reverse ++ read ∧ Statements n ts ss := by
  induction rounds with
  | zero => exact fun read => .pure ⟨[], rfl, .nil⟩
  | succ rounds ih =>
    intro read
    refine .check _ fun b => .atEnd fun b' => ?_
    rcases b || b' with _ | _
    · refine hstatement.bind fun ts s hs => (ih (s :: read)).mono ?_
      rintro us all ⟨ss, rfl, hss⟩
      exact ⟨s :: ss, by simp, .cons hs hss⟩
    · exact .pure ⟨[], rfl, .nil⟩

theorem accepts_braces {n : Nat} {statement : Parser Stmt}
    (hstatement : Accepts statement (Statement n)) :
    Accepts (braces statement) fun ts body => Block n ts body.1 body.2 := by
  refine .eat (by decide) fun opening ho => .tokensAhead fun rounds => ?_
  refine (accepts_statementsUntilBrace hstatement rounds []).bind ?_
  rintro ts all ⟨ss, rfl, hss⟩
  refine .eat (by decide) fun closing hc => .pure ?_
  rw [List.append_nil, List.reverse_reverse]
  exact .braces ho hss hc

section Forms

variable {n : Nat} {expr : Parser Expr} {body : Parser (List Stmt × Int)}

theorem accepts_assignment (hexpr : Accepts expr (Derives .whole n)) :
    Accepts (assignment expr) (Statement (n + 4)) := by
  refine .eat (by decide) fun name hn => .accept (by decide) (fun opening ho => ?_) ?_
  · refine hexpr.bind fun ts index hi => .eat (by decide) fun closing hc =>
      .eat (by decide) fun equal he => hexpr.bind fun us value hv =>
      .eat (by decide) fun semicolon hs => .pure ?_
    exact .assignElement hn ho hi hc he hv hs
  · refine (accepts_assignmentTail hexpr hn).bind_pure ?_
    rintro ts b ⟨us, semicolon, hts, hs, h⟩
    exact ⟨_, rfl, hts ▸ .assign h hs⟩

theorem accepts_output (hexpr : Accepts expr (Derives .whole n)) :
    Accepts (output expr) (Statement (n + 4)) :=
  .eat (by decide) fun _ hk => .eat (by decide) fun _ ho => hexpr.bind fun _ _ h =>
    .eat (by decide) fun _ hc => .eat (by decide) fun _ hs => .pure (.print hk ho h hc hs)

theorem accepts_conditional (hexpr : Accepts expr (Derives .whole n))
    (hbody : Accepts body fun ts b => ∃ m, n = m + 2 ∧ Block m ts b.1 b.2) :
    Accepts (conditional expr body) (Statement (n + 4)) := by
  refine .eat (by decide) fun keyword hk => .eat (by decide) fun opening ho =>
    hexpr.bind fun ts condition h => .eat (by decide) fun closing hc => hbody.bind ?_
  rintro us ⟨taken, takenLine⟩ ⟨m, rfl, ht⟩
  refine .accept (by decide) (fun separator hs => hbody.bind_pure ?_) (.pure ?_)
  · rintro vs ⟨otherwise, otherwiseLine⟩ ⟨m', hm, he⟩
    obtain rfl : m = m' := Nat.add_right_cancel hm
    exact ⟨_, rfl, .ifElse hk ho h hc ht hs he⟩
  · rw [List.append_nil]
    exact .ifThen hk ho h hc ht

theorem accepts_whileLoop (hexpr : Accepts expr (Derives .whole n))
    (hbody : Accepts body fun ts b => ∃ m, n = m + 2 ∧ Block m ts b.1 b.2) :
    Accepts (whileLoop expr body) (Statement (n + 4)) := by
  refine .eat (by decide) fun keyword hk => .eat (by decide) fun opening ho =>
    hexpr.bind fun ts condition h => .eat (by decide) fun closing hc => hbody.bind_pure ?_
  rintro us ⟨statements, bodyLine⟩ ⟨m, rfl, hb⟩
  exact ⟨_, rfl, .whileLoop hk ho h hc hb⟩

theorem accepts_forLoop {declared assigned : Parser Binding}
    (hdeclared : Accepts declared (Ended fun ts b => Initializes n ts (.declare b)))
    (hassigned : Accepts assigned fun ts b => ∃ m, n = m + 1 ∧ Binds m ts b)
    (hexpr : Accepts expr (Derives .whole n))
    (hbody : Accepts body fun ts b => ∃ m, n = m + 2 ∧ Block m ts b.1 b.2) :
    Accepts (forLoop declared assigned expr body) (Statement (n + 4)) := by
  refine .eat (by decide) fun keyword hk => .eat (by decide) fun opening ho =>
    (accepts_forInit hdeclared hexpr).bind ?_
  rintro _ init ⟨ts, semicolon, rfl, hs, hinit⟩
  refine (accepts_forCondition hexpr).bind ?_
  rintro _ condition ⟨us, semicolon', rfl, hs', hcondition⟩
  refine (accepts_forIncrement hassigned).bind fun vs increment hincrement =>
    .eat (by decide) fun closing hc => hbody.bind_pure ?_
  rintro ws ⟨statements, bodyLine⟩ ⟨m, rfl, hb⟩
  have hincrement : Optionally (Binds (m + 1)) vs increment := by
    refine hincrement.imp ?_
    rintro us b ⟨m', hm, h⟩
    obtain rfl : m' = m + 1 := by omega
    exact h
  refine ⟨_, rfl, ?_⟩
  simp only [List.append_assoc, List.cons_append, List.nil_append]
  exact .forLoop hk ho hinit hs hcondition hs' hincrement hc hb

end Forms

theorem Form.of_ne_any (kind : TokenKind) : Form.of kind ≠ .any := by
  cases kind <;> nofun

/-! The parser of statements, form by form.  Whether a body is in reach depends on the budget, so
the equations hold by computation only after a look at the budget. -/

theorem statement_any (n : Nat) :
    statement (n + 2) .any = peek >>= fun token => statement n (Form.of token.kind) := by
  rcases n with _ | _ | n <;> rfl

theorem statement_block (n : Nat) : statement (n + 2) .block =
    braces (statement n .any) >>= fun b => pure (.block b.1 b.2) := by
  rcases n with _ | _ | n <;> rfl

theorem statement_declaration (n : Nat) :
    statement (n + 2) .declaration = .declare <$> declaration (expression n .whole) := by
  rcases n with _ | _ | n <;> rfl

theorem statement_assignment (n : Nat) :
    statement (n + 2) .assignment = assignment (expression n .whole) := by
  rcases n with _ | _ | n <;> rfl

theorem statement_output (n : Nat) :
    statement (n + 2) .output = output (expression n .whole) := by
  rcases n with _ | _ | n <;> rfl

/-- The parser of the bodies inside a statement: it goes two units deeper, if the budget allows
it. -/
def bodyParser : Nat → Parser (List Stmt × Int)
  | n + 2 => braces (statement n .any)
  | _ => stop .tooDeep

theorem statement_conditional (n : Nat) :
    statement (n + 2) .conditional = conditional (expression n .whole) (bodyParser n) := by
  rcases n with _ | _ | n <;> rfl

theorem statement_whileLoop (n : Nat) :
    statement (n + 2) .whileLoop = whileLoop (expression n .whole) (bodyParser n) := by
  rcases n with _ | _ | n <;> rfl

theorem statement_forLoop (n : Nat) :
    statement (n + 2) .forLoop =
      forLoop (innerDeclaration n) (innerAssignment n) (expression n .whole) (bodyParser n) := by
  rcases n with _ | _ | n <;> rfl

theorem accepts_innerDeclaration (n : Nat) :
    Accepts (innerDeclaration n) (Ended fun ts b => Initializes n ts (.declare b)) := by
  rcases n with _ | _ | n
  · exact .stop _
  · exact .stop _
  · exact accepts_declaration (accepts_expression n .whole)

theorem accepts_innerAssignment (n : Nat) :
    Accepts (innerAssignment n) fun ts b => ∃ m, n = m + 1 ∧ Binds m ts b := by
  rcases n with _ | n
  · exact .stop _
  · exact (accepts_bareAssignment (accepts_expression n .whole)).mono fun _ _ h => ⟨n, rfl, h⟩

/-- **The parser of statements accepts only statements**, nested within its budget; the parser of
one form is two units further down. -/
theorem accepts_statement (n : Nat) : Accepts (statement n .any) (Statement n) ∧
    ∀ form, form ≠ .any → Accepts (statement n form) (Statement (n + 2)) := by
  induction n using Nat.strong_induction_on with
  | _ n ih =>
    rcases n with _ | _ | n
    · exact ⟨.stop _, fun _ _ => .stop _⟩
    · exact ⟨.stop _, fun _ _ => .stop _⟩
    · obtain ⟨hany, hforms⟩ := ih n (by omega)
      have hexpr := accepts_expression n .whole
      have hblock : Accepts (bodyParser n) fun ts b => ∃ m, n = m + 2 ∧ Block m ts b.1 b.2 := by
        rcases n with _ | _ | m
        · exact .stop _
        · exact .stop _
        · exact (accepts_braces (ih m (by omega)).1).mono fun ts b h => ⟨m, rfl, h⟩
      refine ⟨?_, ?_⟩
      · rw [statement_any]
        exact .peek fun t => hforms _ (Form.of_ne_any _) t
      intro form hform
      cases form with
      | any => exact absurd rfl hform
      | block =>
        rw [statement_block]
        exact (accepts_braces hany).bind_pure fun ts b h => ⟨_, rfl, .block h⟩
      | declaration =>
        rw [statement_declaration]
        refine (accepts_declaration hexpr).map ?_
        rintro _ b ⟨us, semicolon, rfl, hs, ⟨hk, h⟩⟩
        exact .declare hk h hs
      | assignment => exact statement_assignment n ▸ accepts_assignment hexpr
      | output => exact statement_output n ▸ accepts_output hexpr
      | conditional => exact statement_conditional n ▸ accepts_conditional hexpr hblock
      | whileLoop => exact statement_whileLoop n ▸ accepts_whileLoop hexpr hblock
      | forLoop =>
        exact statement_forLoop n ▸ accepts_forLoop (accepts_innerDeclaration n)
          (accepts_innerAssignment n) hexpr hblock

/-! ## Programs -/

/-- As many rounds as there are tokens ahead take the loop to the end of the text: a statement has
at least one token. -/
theorem Statements.of_run_statementsUntilEnd {n : Nat} {statement : Parser Stmt}
    (hstatement : Accepts statement (Statement n)) (rounds : Nat) :
    ∀ {read all : List Stmt} {line : Int} {k : Nat} {ahead : List Token} {c : Cursor},
      ahead.length ≤ rounds → (∀ t ∈ ahead, t.Lexical) →
      (statementsUntilEnd statement rounds read).run (.before line k ahead) = .ok all c →
      ∃ ss, all = ss.reverse ++ read ∧ Statements n ahead ss := by
  induction rounds with
  | zero =>
    intro read all line k ahead c hlength _ hrun
    obtain rfl : ahead = [] := List.length_eq_zero_iff.1 (Nat.le_zero.1 hlength)
    obtain rfl : read = all := (EStateM.Result.ok.inj hrun).1
    exact ⟨[], rfl, .nil⟩
  | succ rounds ih =>
    intro read all line k ahead c hlength hahead hrun
    rw [statementsUntilEnd, run_bind_of_ok (run_atEnd _)] at hrun
    rcases ahead with _ | ⟨t, ahead⟩
    · obtain rfl : read = all := (EStateM.Result.ok.inj hrun).1
      exact ⟨[], rfl, .nil⟩
    · obtain ⟨s, d, hs, hrest⟩ := run_bind_ok.1 hrun
      obtain ⟨ts, rest, ha, rfl, hS⟩ := hstatement _ line k _ s d hahead rfl hs
      obtain ⟨u, us, rfl, -⟩ := hS.head
      have hrounds : rest.length ≤ rounds := by
        have := congrArg List.length ha
        simp only [List.length_cons, List.length_append] at this hlength
        omega
      have hlexical := (List.forall_mem_append.1 (ha ▸ hahead)).2
      obtain ⟨ss, rfl, hss⟩ := ih hrounds hlexical hrest
      exact ⟨s :: ss, by simp, ha ▸ .cons hS hss⟩

variable [Limits]

theorem parse_eq_ok_iff {tokens : TokenStream} {ast : List Stmt} :
    parse tokens = .ok ast ↔ ∃ c all, ast = all.reverse ∧
      (statementsUntilEnd (statement Limits.nesting .any) tokens.tokens.length []).run
        (.before tokens.endLine 0 tokens.tokens) = .ok all c := by
  unfold parse program
  rw [Cursor.start_eq_before, run_bind_of_ok (run_tokensAhead _ _ _), EStateM.run_bind]
  generalize (statementsUntilEnd _ _ _).run _ = r
  cases r with
  | ok all c => simp [EStateM.run_pure, eq_comm]
  | error e c => simp

/-- What is read as a program is derived from all of its tokens. -/
theorem Statements.of_parse {tokens : TokenStream} {ast : List Stmt}
    (htokens : ∀ t ∈ tokens.tokens, t.Lexical) (h : parse tokens = .ok ast) :
    Statements Limits.nesting tokens.tokens ast := by
  obtain ⟨c, all, rfl, hrun⟩ := parse_eq_ok_iff.1 h
  obtain ⟨ss, rfl, hss⟩ :=
    Statements.of_run_statementsUntilEnd (accepts_statement Limits.nesting).1 _ le_rfl htokens hrun
  rwa [List.append_nil, List.reverse_reverse]

end Scriptlet.Grammar
