import Mathlib
import Scriptlet.Proofs.Grammar.Soundness

/-!
# What is in the grammar is read

The converse of `Scriptlet.Proofs.Grammar.Soundness`: where the grammar derives a tree within the
nesting budget, the parser returns that tree and has moved over exactly the tokens it was derived
from.

A parser reads as far as it can, so this holds only before a token that cannot continue what has
been read: after an expression of a level no operator of that level or of a tighter one and no
opening bracket, after a statement no `else`.  In a left recursive derivation the left operand comes
first and is followed by an operator, where the loop of the level goes on.  What the induction
carries along is therefore not that reading ends after an expression, but that it has got as far as
the expression.

## What is here

* `Stops level kind` — a token of that kind ends every expression of the level.
* `Continues` — reading a level has got as far as an expression, with rounds enough left for all
  tokens that follow.
* `Derives.reads`, `Statement.reads` — derivations are read.
* `parse_eq_ok_iff_derives` — reading a program succeeds exactly on what the grammar derives within
  the nesting limit, with the tree that is derived.
-/

set_option autoImplicit false
namespace Scriptlet.Grammar

/-! ## What may follow an expression -/

/-- The place of a level in the order of precedence, loosest first. -/
def Level.rank : Level → Nat
  | whole => 0 | disjunction => 1 | conjunction => 2 | equality => 3 | comparison => 4
  | sum => 5 | product => 6 | signed => 7 | primary => 8

/-- A token of that kind continues no expression of a level: it is no operator of that level or of a
tighter one, and it opens no index. -/
def Stops (level : Level) (kind : TokenKind) : Prop :=
  kind ≠ .leftBracket ∧ ∀ other : Level, level.rank ≤ other.rank → other.operator? kind = none

theorem Stops.operator? {level : Level} {kind : TokenKind} (h : Stops level kind) :
    level.operator? kind = none :=
  h.2 level le_rfl

theorem Level.rank_le_tighter (level : Level) : level.rank ≤ level.tighter.rank := by
  cases level <;> decide

theorem Stops.tighter {level : Level} {kind : TokenKind} (h : Stops level kind) :
    Stops level.tighter kind :=
  ⟨h.1, fun other hrank => h.2 other (level.rank_le_tighter.trans hrank)⟩

/-- Signs are no binary operators, so they do not lift the bar above primary expressions. -/
theorem Stops.signed {kind : TokenKind} (h : Stops .primary kind) : Stops .signed kind := by
  refine ⟨h.1, fun other hrank => ?_⟩
  cases other <;> first | rfl | exact absurd hrank (by decide)

/-- An operator of a level ends the operand before it. -/
theorem stops_of_operator {level : Level} {kind : TokenKind} {op : BinaryOp}
    (h : level.operator? kind = some op) : Stops level.tighter kind := by
  unfold Level.operator? at h
  split at h
  case h_13 => cases h
  all_goals
    refine ⟨by decide, fun other hrank => ?_⟩
    cases other <;> first | rfl | exact absurd hrank (by decide)

/-- The kinds of tokens that stand right after a whole expression. -/
def closers : List TokenKind :=
  [.rightParen, .rightBracket, .semicolon, .comma]

theorem stops_of_mem_closers {level : Level} {kind : TokenKind} (h : kind ∈ closers) :
    Stops level kind := by
  simp only [closers, List.mem_cons, List.not_mem_nil, or_false] at h
  rcases h with rfl | rfl | rfl | rfl <;>
    exact ⟨by decide, fun other _ => by cases other <;> rfl⟩

/-! ## The loop of a level -/

theorem run_foldOperands_stop {line : Int} {level : Level} {operand : Parser Expr} {e : Expr}
    {rest : List Token} (h : level.operator? (kindAhead rest) = none) (rounds k : Nat) :
    (foldOperands level.operator? operand rounds e).run (.before line k rest) =
      .ok e (.before line k rest) := by
  cases rounds with
  | zero => rfl
  | succ rounds =>
    rw [foldOperands, run_bind_of_ok (run_peek _), Cursor.current_before, h]
    rfl

theorem run_foldOperands_step {line : Int} {level : Level} {operand : Parser Expr}
    {left right : Expr} {operator : Token} {op : BinaryOp} {us rest : List Token}
    (hop : level.operator? operator.kind = some op) (hright : Reads line operand us rest right)
    (rounds k : Nat) :
    (foldOperands level.operator? operand (rounds + 1) left).run
        (.before line k (operator :: us ++ rest)) =
      (foldOperands level.operator? operand rounds (.binary left op right operator.line)).run
        (.before line (k + (operator :: us).length) rest) := by
  have hcurrent : (Cursor.before line k (operator :: us ++ rest)).current = operator := rfl
  rw [foldOperands, run_bind_of_ok (run_peek _), hcurrent, hop]
  show (advance >>= fun _ => operand >>= fun right => foldOperands level.operator? operand rounds
    (.binary left op right operator.line)).run _ = _
  rw [run_bind_of_ok (run_advance _), List.cons_append, Cursor.next_before_cons,
    run_bind_of_ok (hright _), List.length_cons, Nat.add_right_comm, Nat.add_assoc]

/-- Reading the tokens `ts` at a level has got as far as the expression `e`: what the parser does
before `ts` and any tokens that end its operands, its loop does before those tokens. -/
def Continues (line : Int) (level : Level) (n : Nat) (ts : List Token) (e : Expr) : Prop :=
  ∀ rest k, Stops level.tighter (kindAhead rest) → ∃ rounds, rest.length ≤ rounds ∧
    (expression n level).run (.before line k (ts ++ rest)) =
      (foldOperands level.operator? (expression (n - 3) level.tighter) rounds e).run
        (.before line (k + ts.length) rest)

theorem Continues.reads {line : Int} {level : Level} {n : Nat} {ts rest : List Token} {e : Expr}
    (h : Continues line level n ts e) (hstops : Stops level (kindAhead rest)) :
    Reads line (expression n level) ts rest e := by
  intro k
  obtain ⟨rounds, -, hrun⟩ := h rest k hstops.tighter
  rw [hrun, run_foldOperands_stop hstops.operator?]

/-- At a level without operators the loop ends at once. -/
theorem Continues.of_reads {line : Int} {level : Level} {n : Nat} {ts : List Token} {e : Expr}
    (hlevel : ∀ kind, level.operator? kind = none)
    (h : ∀ rest, Stops level.tighter (kindAhead rest) → Reads line (expression n level) ts rest e) :
    Continues line level n ts e := by
  intro rest k hstops
  refine ⟨rest.length, le_rfl, ?_⟩
  rw [h rest hstops k, run_foldOperands_stop (hlevel _)]

theorem expression_binary {level : Level} (h : level ∈ Level.binary) (n : Nat) :
    expression (n + 3) level = operands level.operator? (expression n level.tighter) := by
  simp only [Level.binary, List.mem_cons, List.not_mem_nil, or_false] at h
  rcases h with rfl | rfl | rfl | rfl | rfl | rfl <;> rfl

/-- The first operand of a level. -/
theorem Continues.operand {line : Int} {level : Level} {n : Nat} {ts : List Token} {e : Expr}
    (hlevel : level ∈ Level.binary) (h : Continues line level.tighter n ts e) :
    Continues line level (n + 3) ts e := by
  intro rest k hstops
  refine ⟨rest.length, le_rfl, ?_⟩
  rw [expression_binary hlevel, operands, run_bind_of_ok (h.reads hstops k),
    run_bind_of_ok (run_tokensAhead _ _ _), Nat.add_sub_cancel]

/-- One more operand with an operator before it. -/
theorem Continues.binary {line : Int} {level : Level} {n : Nat} {ts us : List Token}
    {left right : Expr} {operator : Token} {op : BinaryOp}
    (hleft : Continues line level (n + 3) ts left)
    (hop : level.operator? operator.kind = some op)
    (hright : Continues line level.tighter n us right) :
    Continues line level (n + 3) (ts ++ operator :: us) (.binary left op right operator.line) := by
  intro rest k hstops
  obtain ⟨rounds, hrounds, hrun⟩ := hleft (operator :: us ++ rest) k (stops_of_operator hop)
  obtain ⟨rounds, rfl⟩ : ∃ r, rounds = r + 1 :=
    Nat.exists_eq_add_of_le' (le_trans (by simp) hrounds)
  refine ⟨rounds, ?_, ?_⟩
  · simp only [List.length_append, List.length_cons] at hrounds
    omega
  · rw [List.append_assoc, hrun, Nat.add_sub_cancel,
      run_foldOperands_step hop (hright.reads hstops), List.length_append, Nat.add_assoc]

/-! ## Primary expressions and signs -/

section Primary

variable {line : Int} {inner : Parser Expr} {ts rest : List Token} {e : Expr}

theorem reads_primary_number {t : Token} {x : Float} (ht : t.kind = .number)
    (hx : Numeral t.lexeme.toList x) :
    Reads line (primary inner) [t] rest (.literal (.number x) t.line) := by
  refine .peek ?_
  rw [ht, ← hx.ofPositional]
  exact .advance .pure

theorem reads_primary_string {t : Token} {text : List Char} (ht : t.kind = .string)
    (htext : t.lexeme.toList = '"' :: (text ++ ['"'])) :
    Reads line (primary inner) [t] rest (.literal (.string (String.ofList text)) t.line) := by
  refine .peek ?_
  rw [ht, ← unquoted_eq htext]
  exact .advance .pure

theorem reads_primary_char {t : Token} {c : Char} (ht : t.kind = .char)
    (hc : t.lexeme.toList = ['\'', c, '\'']) :
    Reads line (primary inner) [t] rest (.literal (.char c) t.line) := by
  have hinner : unquoted t.lexeme = [c] := unquoted_eq hc
  have hvalue : (unquoted t.lexeme).headD '\x00' = c := by rw [hinner, List.headD_cons]
  refine .peek ?_
  rw [ht, ← hvalue]
  exact .advance .pure

theorem reads_primary_variable {name : Token} (hn : name.kind = .identifier)
    (hrest : kindAhead rest ≠ .leftBracket) :
    Reads line (primary inner) [name] rest (.variable name.lexeme name.line) := by
  refine .peek ?_
  rw [hn]
  exact .advance (.accept_none hrest .pure)

theorem reads_primary_element {name opening closing : Token} (hn : name.kind = .identifier)
    (ho : opening.kind = .leftBracket) (hindex : Reads line inner ts (closing :: rest) e)
    (hc : closing.kind = .rightBracket) :
    Reads line (primary inner) (name :: opening :: (ts ++ [closing])) rest
      (.element name.lexeme e name.line) := by
  refine .peek ?_
  rw [hn]
  exact .advance (.accept_some ho (.bind hindex (.eat hc .pure)))

theorem reads_primary_group {opening closing : Token} (ho : opening.kind = .leftParen)
    (hgroup : Reads line inner ts (closing :: rest) e) (hc : closing.kind = .rightParen) :
    Reads line (primary inner) (opening :: (ts ++ [closing])) rest e := by
  refine .peek ?_
  rw [ho]
  exact .advance (.bind hgroup (.eat hc .pure))

theorem reads_primary_array {opening closing : Token} {es : List Expr}
    (ho : opening.kind = .leftBracket) (hes : Reads line (elements inner) ts (closing :: rest) es)
    (hc : closing.kind = .rightBracket) :
    Reads line (primary inner) (opening :: (ts ++ [closing])) rest (.array es opening.line) := by
  refine .peek ?_
  rw [ho]
  exact .advance (.bind hes (.eat hc .pure))

theorem reads_withSign {signed unsigned : Parser Expr} {operator : Token} {op : UnaryOp}
    (hop : signOperator? operator.kind = some op) (h : Reads line signed ts rest e) :
    Reads line (withSign signed unsigned) (operator :: ts) rest (.unary op e operator.line) := by
  refine .peek ?_
  rw [hop]
  exact .advance h.bind_pure

theorem reads_withoutSign {signed unsigned : Parser Expr} {t : Token}
    (ht : signOperator? t.kind = none) (h : Reads line unsigned (t :: ts) rest e) :
    Reads line (withSign signed unsigned) (t :: ts) rest e := by
  refine .peek ?_
  rw [ht]
  exact h

end Primary

/-- No primary expression begins with a sign. -/
theorem Derives.primary_head {n : Nat} {ts : List Token} {e : Expr} (h : Derives .primary n ts e) :
    ∃ t us, ts = t :: us ∧ signOperator? t.kind = none := by
  cases h with
  | operand hover => cases hover
  | binary _ hop => cases hop
  | number ht => exact ⟨_, _, rfl, by rw [ht]; rfl⟩
  | string ht => exact ⟨_, _, rfl, by rw [ht]; rfl⟩
  | char ht => exact ⟨_, _, rfl, by rw [ht]; rfl⟩
  | «variable» ht => exact ⟨_, _, rfl, by rw [ht]; rfl⟩
  | element hn => exact ⟨_, _, rfl, by rw [hn]; rfl⟩
  | group ho => exact ⟨_, _, rfl, by rw [ho]; rfl⟩
  | array ho => exact ⟨_, _, rfl, by rw [ho]; rfl⟩

/-! ## Array literals -/

theorem MoreElements.kindAhead_mem_closers {n : Nat} {ts rest : List Token} {es : List Expr}
    (h : MoreElements n ts es) (hrest : kindAhead rest = .rightBracket) :
    kindAhead (ts ++ rest) ∈ closers := by
  cases h with
  | nil => simp [hrest, closers]
  | cons hcomma => simp [hcomma, closers]

/-- The loop of an array literal reads the elements after the first, given rounds for all tokens
ahead. -/
def ReadsMore (line : Int) (element : Parser Expr) (ts : List Token) (es : List Expr) : Prop :=
  ∀ rest read rounds, kindAhead rest = .rightBracket → (ts ++ rest).length ≤ rounds →
    Reads line (moreElements element rounds read) ts rest (es.reverse ++ read)

theorem ReadsMore.nil {line : Int} {element : Parser Expr} : ReadsMore line element [] [] := by
  intro rest read rounds hrest _
  cases rounds with
  | zero => exact .pure
  | succ rounds =>
    have hcomma : kindAhead ([] ++ rest) ≠ .comma := by
      rw [List.nil_append, hrest]
      decide
    exact .accept_none hcomma .pure

theorem ReadsMore.cons {line : Int} {element : Parser Expr} {ts us : List Token} {comma : Token}
    {e : Expr} {es : List Expr} (hcomma : comma.kind = .comma)
    (helement : ∀ rest, kindAhead rest = .rightBracket → Reads line element ts (us ++ rest) e)
    (hmore : ReadsMore line element us es) :
    ReadsMore line element (comma :: ts ++ us) (e :: es) := by
  intro rest read rounds hrest hrounds
  simp only [List.length_append, List.length_cons] at hrounds
  obtain ⟨rounds, rfl⟩ : ∃ r, rounds = r + 1 := ⟨rounds - 1, by omega⟩
  have hnext := hmore rest (e :: read) rounds hrest (by rw [List.length_append]; omega)
  rw [List.reverse_cons, List.append_assoc]
  exact .accept_some hcomma (.bind (helement rest hrest) hnext)

theorem reads_elements_none {line : Int} {element : Parser Expr} {rest : List Token}
    (hrest : kindAhead rest = .rightBracket) : Reads line (elements element) [] rest [] :=
  .check_true hrest .pure

theorem reads_elements_first {line : Int} {element : Parser Expr} {ts us rest : List Token}
    {e : Expr} {es : List Expr} (hhead : kindAhead (ts ++ us ++ rest) ≠ .rightBracket)
    (hrest : kindAhead rest = .rightBracket) (helement : Reads line element ts (us ++ rest) e)
    (hmore : ReadsMore line element us es) :
    Reads line (elements element) (ts ++ us) rest (e :: es) := by
  have hall : e :: es = (es.reverse ++ [e]).reverse := by simp
  rw [hall]
  exact .check_false hhead (.bind helement
    (.tokensAhead (hmore rest [e] _ hrest le_rfl).bind_pure))

/-! ## Expressions -/

/-- Reading gets as far as every expression that the grammar derives. -/
theorem Derives.continues {line : Int} {level : Level} {n : Nat} {ts : List Token} {e : Expr}
    (h : Derives level n ts e) : Continues line level n ts e := by
  refine @Derives.rec (fun level n ts e _ => Continues line level n ts e)
    (fun n ts es _ => ∀ rest, kindAhead rest = .rightBracket →
      Reads line (elements (expression n .whole)) ts rest es)
    (fun n ts es _ => ReadsMore line (expression n .whole) ts es)
    ?whole ?operand ?binary ?unsigned ?sign ?number ?string ?char ?name ?element ?group ?array
    ?none ?first ?nil ?cons level n ts e h
  case whole => exact fun _ ih => .of_reads (fun _ => rfl) fun rest hstops => ih.reads hstops
  case operand =>
    intro level tighter n ts e hover _ ih
    obtain ⟨hlevel, rfl⟩ := Level.over_iff.1 hover
    exact ih.operand hlevel
  case binary =>
    intro level tighter n ts us left right operator op _ hop hover _ ihl ihr
    obtain ⟨-, rfl⟩ := Level.over_iff.1 hover
    exact ihl.binary (joins_iff.1 hop) ihr
  case unsigned =>
    intro n ts e h ih
    obtain ⟨t, us, rfl, ht⟩ := h.primary_head
    exact .of_reads (fun _ => rfl) fun rest hstops => reads_withoutSign ht (ih.reads hstops)
  case sign =>
    exact fun hop _ ih => .of_reads (fun _ => rfl) fun rest hstops =>
      reads_withSign (signs_iff.1 hop) (ih.reads hstops.signed)
  case number =>
    exact fun ht hx => .of_reads (fun _ => rfl) fun _ _ => reads_primary_number ht hx
  case string =>
    exact fun ht htext => .of_reads (fun _ => rfl) fun _ _ => reads_primary_string ht htext
  case char =>
    exact fun ht hc => .of_reads (fun _ => rfl) fun _ _ => reads_primary_char ht hc
  case name =>
    exact fun ht => .of_reads (fun _ => rfl) fun _ hstops => reads_primary_variable ht hstops.1
  case element =>
    refine fun hn ho _ hc ih => .of_reads (fun _ => rfl) fun rest _ =>
      reads_primary_element hn ho (ih.reads (stops_of_mem_closers ?_)) hc
    simp [hc, closers]
  case group =>
    refine fun ho _ hc ih => .of_reads (fun _ => rfl) fun rest _ =>
      reads_primary_group ho (ih.reads (stops_of_mem_closers ?_)) hc
    simp [hc, closers]
  case array =>
    exact fun ho _ hc ih => .of_reads (fun _ => rfl) fun rest _ =>
      reads_primary_array ho (ih _ hc) hc
  case none => exact fun rest hrest => reads_elements_none hrest
  case first =>
    intro n ts us e es h hs ih ihs rest hrest
    obtain ⟨t, vs, rfl, -, ht⟩ := h.head
    refine reads_elements_first ht hrest (ih.reads (stops_of_mem_closers ?_)) ihs
    exact hs.kindAhead_mem_closers hrest
  case nil => exact ReadsMore.nil
  case cons =>
    intro n ts us comma e es hcomma _ hs ih ihs
    refine ihs.cons hcomma fun rest hrest => ih.reads (stops_of_mem_closers ?_)
    exact hs.kindAhead_mem_closers hrest

/-- **Whole expressions are read** before a token that closes them. -/
theorem Derives.reads {line : Int} {n : Nat} {ts rest : List Token} {e : Expr}
    (h : Derives .whole n ts e) (hrest : kindAhead rest ∈ closers) :
    Reads line (expression n .whole) ts rest e :=
  h.continues.reads (stops_of_mem_closers hrest)

/-! ## Parts of statements -/

section Parts

variable {line : Int} {n : Nat} {ts rest : List Token}

theorem Derives.reads_cons {e : Expr} {t : Token} (h : Derives .whole n ts e)
    (ht : t.kind ∈ closers) : Reads line (expression n .whole) ts (t :: rest) e :=
  h.reads ht

theorem Binds.reads_declaration {b : Binding} {keyword semicolon : Token}
    (hk : keyword.kind = .kwLet) (h : Binds n ts b) (hs : semicolon.kind = .semicolon) :
    Reads line (declaration (expression n .whole)) (keyword :: (ts ++ [semicolon])) rest b := by
  obtain ⟨hn, he, h⟩ := h
  exact .eat hk (.eat hn (.eat he (.bind (h.reads_cons (by simp [hs, closers])) (.eat hs .pure))))

/-- An assignment is its name and what the parser reads after the name. -/
theorem Binds.reads_assignmentTail (line : Int) {b : Binding} {semicolon : Token}
    (h : Binds n ts b) (hs : semicolon.kind = .semicolon) :
    ∃ name us, ts = name :: us ∧ name.kind = .identifier ∧ ∀ rest,
      kindAhead (us ++ [semicolon] ++ rest) = .equal ∧
      Reads line (assignmentTail (expression n .whole) name) (us ++ [semicolon]) rest b := by
  obtain ⟨hn, he, h⟩ := h
  refine ⟨_, _, rfl, hn, fun rest => ⟨he, ?_⟩⟩
  exact .eat he (.bind (h.reads_cons (by simp [hs, closers])) (.eat hs .pure))

theorem Optionally.reads_forInit {init : Option ForInit} {semicolon : Token}
    (h : Optionally (Initializes n) ts init) (hs : semicolon.kind = .semicolon) :
    Reads line (forInit (innerDeclaration n) (expression n .whole)) (ts ++ [semicolon]) rest
      init := by
  rcases h with _ | ⟨⟨hk, h⟩ | ⟨h⟩⟩
  · exact .check_false (by simp [hs]) (.check_true hs (.eat hs .pure))
  · exact .check_true hk (h.reads_declaration hk hs).bind_pure
  · obtain ⟨name, us, rfl, hn, h⟩ := h.reads_assignmentTail line hs
    exact .check_false (by simp [hn]) (.check_false (by simp [hn]) (.eat hn (h rest).2.bind_pure))

theorem Optionally.reads_forCondition {condition : Option Expr} {semicolon : Token}
    (h : Optionally (Derives .whole n) ts condition) (hs : semicolon.kind = .semicolon) :
    Reads line (forCondition (expression n .whole)) (ts ++ [semicolon]) rest condition := by
  rcases h with _ | ⟨h⟩
  · exact .check_true hs (.eat hs .pure)
  · obtain ⟨t, us, rfl, ht, -⟩ := h.head
    exact .check_false ht (.bind (h.reads_cons (by simp [hs, closers])).map (.eat hs .pure))

theorem Optionally.reads_forIncrement {increment : Option Binding} {closing : Token}
    (h : Optionally (Binds n) ts increment) (hc : closing.kind = .rightParen) :
    Reads line (forIncrement (innerAssignment (n + 1))) ts (closing :: rest) increment := by
  rcases h with _ | ⟨⟨hn, he, h⟩⟩
  · exact .check_true hc .pure
  · exact .check_false (by simp [hn]) (Reads.bind_pure
      (.eat hn (.eat he (h.reads_cons (by simp [hc, closers])).bind_pure)))

end Parts

/-! ## Statements -/

/-- The loop between braces reads some statements, given rounds for all tokens ahead. -/
def ReadsUntilBrace (line : Int) (statement : Parser Stmt) (ts : List Token) (ss : List Stmt) :
    Prop :=
  ∀ rest read rounds, kindAhead rest = .rightBrace → (ts ++ rest).length ≤ rounds →
    Reads line (statementsUntilBrace statement rounds read) ts rest (ss.reverse ++ read)

theorem ReadsUntilBrace.nil {line : Int} {statement : Parser Stmt} :
    ReadsUntilBrace line statement [] [] := by
  intro rest read rounds hrest _
  cases rounds with
  | zero => exact .pure
  | succ rounds => exact .check_true hrest (.atEnd .pure)

theorem ReadsUntilBrace.cons {line : Int} {statement : Parser Stmt} {t : Token}
    {ts us : List Token} {s : Stmt} {ss : List Stmt} (ht : t.kind ≠ .rightBrace)
    (hs : ∀ rest, kindAhead rest = .rightBrace → Reads line statement (t :: ts) (us ++ rest) s)
    (hss : ReadsUntilBrace line statement us ss) :
    ReadsUntilBrace line statement (t :: ts ++ us) (s :: ss) := by
  intro rest read rounds hrest hrounds
  simp only [List.length_append, List.length_cons] at hrounds
  obtain ⟨rounds, rfl⟩ : ∃ r, rounds = r + 1 := ⟨rounds - 1, by omega⟩
  have hnext := hss rest (s :: read) rounds hrest (by rw [List.length_append]; omega)
  rw [List.reverse_cons, List.append_assoc]
  exact .check_false ht (.atEnd (.bind (hs rest hrest) hnext))

theorem reads_braces {line : Int} {statement : Parser Stmt} {ts rest : List Token}
    {body : List Stmt} {opening closing : Token} (ho : opening.kind = .leftBrace)
    (h : ReadsUntilBrace line statement ts body) (hc : closing.kind = .rightBrace) :
    Reads line (braces statement) (opening :: (ts ++ [closing])) rest (body, opening.line) := by
  have hall : body = (body.reverse ++ []).reverse := by simp
  have hloop := h (closing :: rest) [] (ts ++ closing :: rest).length hc le_rfl
  rw [hall]
  refine .eat ho (.tokensAhead (.bind ?_ (.eat hc .pure)))
  simpa using hloop

section Forms

variable {line : Int} {n : Nat} {body : Parser (List Stmt × Int)} {ts us rest : List Token}
  {condition : Expr} {taken : List Stmt} {takenLine : Int} {keyword opening closing : Token}

theorem reads_conditional_ifThen (hk : keyword.kind = .kwIf) (ho : opening.kind = .leftParen)
    (h : Derives .whole n ts condition) (hc : closing.kind = .rightParen)
    (hbody : Reads line body us rest (taken, takenLine)) (hrest : kindAhead rest ≠ .kwElse) :
    Reads line (conditional (expression n .whole) body)
      (keyword :: opening :: (ts ++ closing :: us)) rest
      (.ifThen condition taken takenLine keyword.line) :=
  .eat hk (.eat ho (.bind (h.reads_cons (by simp [hc, closers]))
    (.eat hc (hbody.bind_nil (.accept_none hrest .pure)))))

theorem reads_conditional_ifElse {vs : List Token} {otherwise : List Stmt} {otherwiseLine : Int}
    {separator : Token} (hk : keyword.kind = .kwIf) (ho : opening.kind = .leftParen)
    (h : Derives .whole n ts condition) (hc : closing.kind = .rightParen)
    (htaken : Reads line body us (separator :: vs ++ rest) (taken, takenLine))
    (hs : separator.kind = .kwElse)
    (hotherwise : Reads line body vs rest (otherwise, otherwiseLine)) :
    Reads line (conditional (expression n .whole) body)
      (keyword :: opening :: (ts ++ closing :: (us ++ separator :: vs))) rest
      (.ifElse condition taken takenLine otherwise otherwiseLine keyword.line) :=
  .eat hk (.eat ho (.bind (h.reads_cons (by simp [hc, closers]))
    (.eat hc (.bind htaken (.accept_some hs (hotherwise.bind_nil .pure))))))

theorem reads_whileLoop (hk : keyword.kind = .kwWhile) (ho : opening.kind = .leftParen)
    (h : Derives .whole n ts condition) (hc : closing.kind = .rightParen)
    (hbody : Reads line body us rest (taken, takenLine)) :
    Reads line (whileLoop (expression n .whole) body) (keyword :: opening :: (ts ++ closing :: us))
      rest (.whileLoop condition taken takenLine keyword.line) :=
  .eat hk (.eat ho (.bind (h.reads_cons (by simp [hc, closers]))
    (.eat hc (hbody.bind_nil .pure))))

theorem reads_forLoop {vs ws : List Token} {clauses : ForClauses} {semicolon semicolon' : Token}
    (hk : keyword.kind = .kwFor) (ho : opening.kind = .leftParen)
    (hinit : Optionally (Initializes (n + 1)) ts clauses.init) (hs : semicolon.kind = .semicolon)
    (hcondition : Optionally (Derives .whole (n + 1)) us clauses.condition)
    (hs' : semicolon'.kind = .semicolon) (hincrement : Optionally (Binds n) vs clauses.increment)
    (hc : closing.kind = .rightParen) (hbody : Reads line body ws rest (taken, takenLine)) :
    Reads line
      (forLoop (innerDeclaration (n + 1)) (innerAssignment (n + 1)) (expression (n + 1) .whole)
        body)
      (keyword :: opening :: (ts ++ semicolon :: (us ++ semicolon' :: (vs ++ closing :: ws)))) rest
      (.forLoop clauses taken takenLine keyword.line) := by
  have hclauses : Reads line
      (forLoop (innerDeclaration (n + 1)) (innerAssignment (n + 1)) (expression (n + 1) .whole)
        body)
      (keyword :: opening ::
        ((ts ++ [semicolon]) ++ ((us ++ [semicolon']) ++ (vs ++ closing :: ws)))) rest
      (.forLoop clauses taken takenLine keyword.line) :=
    .eat hk (.eat ho (.bind (hinit.reads_forInit hs) (.bind (hcondition.reads_forCondition hs')
      (.bind (hincrement.reads_forIncrement hc) (.eat hc (hbody.bind_nil .pure))))))
  simpa using hclauses

end Forms

theorem reads_any {line : Int} {n : Nat} {t : Token} {ts rest : List Token} {s : Stmt}
    {kind : TokenKind} (ht : t.kind = kind)
    (h : Reads line (statement (n + 2) (Form.of kind)) (t :: ts) rest s) :
    Reads line (statement (n + 4) .any) (t :: ts) rest s := by
  rw [statement_any]
  exact .peek (ht ▸ h)

theorem Statements.kindAhead_ne_else {n : Nat} {ts rest : List Token} {ss : List Stmt}
    (h : Statements n ts ss) (hrest : kindAhead rest ≠ .kwElse) :
    kindAhead (ts ++ rest) ≠ .kwElse := by
  cases h with
  | nil => exact hrest
  | cons h =>
    obtain ⟨t, us, rfl, -, ht⟩ := h.head
    exact ht

/-- **Statements are read**, unless an `else` follows that they could take for their own. -/
theorem Statement.reads {line : Int} {n : Nat} {ts rest : List Token} {s : Stmt}
    (h : Statement n ts s) (hrest : kindAhead rest ≠ .kwElse) :
    Reads line (statement n .any) ts rest s := by
  refine @Statement.rec
    (fun n ts s _ => ∀ rest, kindAhead rest ≠ .kwElse →
      Reads line (statement n .any) ts rest s)
    (fun n ts body bodyLine _ => ∀ rest,
      Reads line (braces (statement n .any)) ts rest (body, bodyLine))
    (fun n ts ss _ => ReadsUntilBrace line (statement n .any) ts ss)
    ?declare ?assign ?assignElement ?print ?block ?ifThen ?ifElse ?whileLoop ?forLoop
    ?braces ?nil ?cons n ts s h rest hrest
  case declare =>
    intro n ts b keyword semicolon hk h hs rest _
    refine reads_any hk ?_
    change Reads line (statement (n + 2) .declaration) _ _ _
    rw [statement_declaration]
    exact (h.reads_declaration hk hs).map
  case assign =>
    intro n ts b semicolon h hs rest _
    obtain ⟨name, us, rfl, hn, htail⟩ := h.reads_assignmentTail line hs
    obtain ⟨hequal, htail⟩ := htail rest
    refine reads_any hn ?_
    change Reads line (statement (n + 2) .assignment) _ _ _
    rw [statement_assignment]
    exact .eat hn (.accept_none (ne_of_eq_of_ne hequal (by decide)) htail.bind_pure)
  case assignElement =>
    intro n ts us index value name opening closing equal semicolon hn ho hi hc he hv hs rest _
    refine reads_any hn ?_
    change Reads line (statement (n + 2) .assignment) _ _ _
    rw [statement_assignment]
    refine .eat hn (.accept_some ho (.bind (hi.reads_cons (by simp [hc, closers])) ?_))
    exact .eat hc (.eat he (.bind (hv.reads_cons (by simp [hs, closers])) (.eat hs .pure)))
  case print =>
    intro n ts value keyword opening closing semicolon hk ho h hc hs rest _
    refine reads_any hk ?_
    change Reads line (statement (n + 2) .output) _ _ _
    rw [statement_output]
    exact .eat hk (.eat ho (.bind (h.reads_cons (by simp [hc, closers])) (.eat hc (.eat hs .pure))))
  case block =>
    intro n ts body bodyLine h ih rest _
    obtain ⟨ho, -, -⟩ := h
    refine reads_any ho ?_
    change Reads line (statement (n + 2) .block) _ _ _
    rw [statement_block]
    exact (ih rest).bind_pure
  case ifThen =>
    exact fun hk ho h hc _ ih rest hrest =>
      reads_any hk (reads_conditional_ifThen hk ho h hc (ih rest) hrest)
  case ifElse =>
    exact fun hk ho h hc _ hs _ ih ih' rest _ =>
      reads_any hk (reads_conditional_ifElse hk ho h hc (ih _) hs (ih' rest))
  case whileLoop =>
    exact fun hk ho h hc _ ih rest _ => reads_any hk (reads_whileLoop hk ho h hc (ih rest))
  case forLoop =>
    exact fun hk ho hinit hs hcondition hs' hincrement hc _ ih rest _ =>
      reads_any hk (reads_forLoop hk ho hinit hs hcondition hs' hincrement hc (ih rest))
  case braces => exact fun ho _ hc ih rest => reads_braces ho ih hc
  case nil => exact ReadsUntilBrace.nil
  case cons =>
    intro n ts us s ss h hs ih ihs
    obtain ⟨t, ts, rfl, ht, -⟩ := h.head
    refine ihs.cons ht fun rest hrest => ih _ (hs.kindAhead_ne_else ?_)
    simp [hrest]

/-! ## Programs -/

/-- The loop over a program reads its statements to the end of the text. -/
theorem Statements.reads {line : Int} {n : Nat} {ss : List Stmt} :
    ∀ {ts : List Token}, Statements n ts ss → ∀ read rounds, ts.length ≤ rounds →
      Reads line (statementsUntilEnd (statement n .any) rounds read) ts []
        (ss.reverse ++ read) := by
  induction ss with
  | nil =>
    intro ts h read rounds _
    cases h
    cases rounds with
    | zero => exact .pure
    | succ rounds => exact .atEnd .pure
  | cons s ss ih =>
    intro ts h read rounds hrounds
    obtain _ | ⟨h, hs⟩ := h
    obtain ⟨t, ts, rfl, -⟩ := h.head
    simp only [List.length_append, List.length_cons] at hrounds
    obtain ⟨rounds, rfl⟩ : ∃ r, rounds = r + 1 := ⟨rounds - 1, by omega⟩
    have hnext := ih hs (s :: read) rounds (by omega)
    rw [List.reverse_cons, List.append_assoc]
    exact .atEnd (.bind (h.reads (hs.kindAhead_ne_else (by decide))) hnext)

/-- **Reading a program succeeds exactly on the language of the grammar.**  The program that is read
from the tokens of a text is the one that the grammar derives from all of them before the end of the
text, nested at most as deep as the limit. -/
theorem parse_eq_ok_iff_derives [Limits] {source : List Char} {tokens : TokenStream}
    (hs : tokenize source = .ok tokens) (ast : List Stmt) :
    parse tokens = .ok ast ↔ ∃ n ≤ Limits.nesting, Statements n tokens.tokens ast := by
  constructor
  · intro h
    exact ⟨Limits.nesting, le_rfl, Statements.of_parse (lexical_of_tokenize hs) h⟩
  · rintro ⟨n, hn, h⟩
    have hreads : Reads tokens.endLine
        (statementsUntilEnd (statement Limits.nesting .any) tokens.tokens.length [])
        tokens.tokens [] (ast.reverse ++ []) := (h.mono hn).reads [] _ le_rfl
    have hrun := hreads 0
    rw [List.append_nil] at hrun
    exact parse_eq_ok_iff.2 ⟨_, _, by simp, hrun⟩

/-- Operators of one level group to the left, and those of a tighter level before them. -/
theorem parse_eq_ok_iff_derives_grouping :
    let _ : Limits := ⟨40, 1⟩
    let name (text : String) : Expr := .variable text 1
    let ast : List Stmt := [.print (.binary (.binary (name "a") .sub (name "b") 1) .sub
      (.binary (name "c") .mul (name "d") 1) 1) 1]
    ∃ tokens, tokenize "print(a - b - c * d);".toList = .ok tokens ∧ parse tokens = .ok ast ∧
      ∃ n ≤ 40, Statements n tokens.tokens ast := by
  intro limits name ast
  have hs : tokenize "print(a - b - c * d);".toList = .ok ⟨[⟨.kwPrint, "print", 1⟩,
      ⟨.leftParen, "(", 1⟩, ⟨.identifier, "a", 1⟩, ⟨.minus, "-", 1⟩, ⟨.identifier, "b", 1⟩,
      ⟨.minus, "-", 1⟩, ⟨.identifier, "c", 1⟩, ⟨.star, "*", 1⟩, ⟨.identifier, "d", 1⟩,
      ⟨.rightParen, ")", 1⟩, ⟨.semicolon, ";", 1⟩], 1⟩ := by cbv
  exact ⟨_, hs, rfl, (parse_eq_ok_iff_derives hs ast).1 rfl⟩

end Scriptlet.Grammar
