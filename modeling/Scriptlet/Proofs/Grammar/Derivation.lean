import Mathlib
import Scriptlet.Grammar.Statement
import Scriptlet.Proofs.Token.LongestMatch

/-!
# The grammar as a relation

What the reader of programs is meant to accept, said without reading: a relation between lists of
tokens and the trees they stand for.  Expressions come in levels, each level of binary operators
being left recursive, so `a - b - c` has one derivation at the level of sums and groups to the left.
The levels are names here and no more.  Which operators join the operands of a level, and which
level its operands are of, is part of the grammar, and so is what the text of a literal stands for.

Every rule says which token gives its tree the line: the operator of a binary expression, the name
of a variable, of an element, of a declaration or of an assignment, and the first token of all else.

The number in each relation bounds the nesting of the derivation, in the units that reading counts:
going down to a tighter level takes three for a level of binary operators and two for any other; a
statement takes four, and what stands inside the body of a conditional or of a loop two more; in the
clauses of a `for` loop a declaration takes two, and the last assignment one.

## What is here

* `Level.Over`, `Joins`, `Signs` — the precedence of the operators, and the tokens they are written
  with; `Numeral text x` — the text of a number.
* `Derives level n ts e` — the tokens `ts` are the expression `e` of a level, and `Elements n ts es`
  the elements of an array literal with commas between them.
* `Binds n ts b` — `name = value`; `Optionally R` — a part that may be missing.
* `Statement`, `Block`, `Statements` — statements, statements between braces, and statements one
  after the other; a program is such a list.
* `Derives.head`, `Statement.head` — the kinds of tokens that no derivation begins with.
* `Derives.mono`, `Statements.mono` — the bound on nesting is a bound: it may be raised.
-/

set_option autoImplicit false
namespace Scriptlet.Grammar

/-! ## Operators and literals -/

/-- `level.Over tighter`: the operands of a level of binary operators are of the level `tighter`. -/
inductive Level.Over : Level → Level → Prop
  | disjunction : Over .disjunction .conjunction
  | conjunction : Over .conjunction .equality
  | equality : Over .equality .comparison
  | comparison : Over .comparison .sum
  | sum : Over .sum .product
  | product : Over .product .signed

/-- `Joins level kind op`: a token of a kind between operands of a level is the operator `op`. -/
inductive Joins : Level → TokenKind → BinaryOp → Prop
  | or : Joins .disjunction .kwOr .or
  | and : Joins .conjunction .kwAnd .and
  | eq : Joins .equality .equalEqual .eq
  | ne : Joins .equality .bangEqual .ne
  | lt : Joins .comparison .less .lt
  | le : Joins .comparison .lessEqual .le
  | gt : Joins .comparison .greater .gt
  | ge : Joins .comparison .greaterEqual .ge
  | add : Joins .sum .plus .add
  | sub : Joins .sum .minus .sub
  | mul : Joins .product .star .mul
  | div : Joins .product .slash .div

/-- `Signs kind op`: a token of a kind before an operand is the operator `op`. -/
inductive Signs : TokenKind → UnaryOp → Prop
  | neg : Signs .minus .neg
  | not : Signs .kwNot .not

/-- `Numeral text x`: the text is digits, perhaps with a point and more digits, and `x` is the
double nearest to what they write. -/
inductive Numeral : List Char → Float → Prop
  | whole {ds : List Char} : ds ≠ [] → (∀ d ∈ ds, DigitChar d) →
      Numeral ds (Decimal.ofPattern false (Decimal.nearestDecimal (Text.digitsValue ds) 0))
  | fraction {ds es : List Char} : ds ≠ [] → (∀ d ∈ ds, DigitChar d) → es ≠ [] →
      (∀ d ∈ es, DigitChar d) → Numeral (ds ++ '.' :: es)
        (Decimal.ofPattern false
          (Decimal.nearestDecimal (Text.digitsValue (ds ++ es)) (-es.length)))

/-! ## Expressions -/

mutual

/-- `Derives level n ts e`: the tokens `ts` are the expression `e` of a level, nested at most `n`
units deep. -/
inductive Derives : Level → Nat → List Token → Expr → Prop
  | whole {n : Nat} {ts : List Token} {e : Expr} :
      Derives .disjunction n ts e → Derives .whole (n + 2) ts e
  | operand {level tighter : Level} {n : Nat} {ts : List Token} {e : Expr} :
      level.Over tighter → Derives tighter n ts e → Derives level (n + 3) ts e
  | binary {level tighter : Level} {n : Nat} {ts us : List Token} {left right : Expr}
      {operator : Token} {op : BinaryOp} :
      Derives level (n + 3) ts left → Joins level operator.kind op → level.Over tighter →
      Derives tighter n us right →
      Derives level (n + 3) (ts ++ operator :: us) (.binary left op right operator.line)
  | unsigned {n : Nat} {ts : List Token} {e : Expr} :
      Derives .primary n ts e → Derives .signed (n + 2) ts e
  | sign {n : Nat} {ts : List Token} {e : Expr} {operator : Token} {op : UnaryOp} :
      Signs operator.kind op → Derives .signed n ts e →
      Derives .signed (n + 2) (operator :: ts) (.unary op e operator.line)
  | number {n : Nat} {t : Token} {x : Float} :
      t.kind = .number → Numeral t.lexeme.toList x →
      Derives .primary (n + 2) [t] (.literal (.number x) t.line)
  | string {n : Nat} {t : Token} {text : List Char} :
      t.kind = .string → t.lexeme.toList = '"' :: (text ++ ['"']) →
      Derives .primary (n + 2) [t] (.literal (.string (String.ofList text)) t.line)
  | char {n : Nat} {t : Token} {c : Char} :
      t.kind = .char → t.lexeme.toList = ['\'', c, '\''] →
      Derives .primary (n + 2) [t] (.literal (.char c) t.line)
  | variable {n : Nat} {name : Token} :
      name.kind = .identifier →
      Derives .primary (n + 2) [name] (.variable name.lexeme name.line)
  | element {n : Nat} {ts : List Token} {index : Expr} {name opening closing : Token} :
      name.kind = .identifier → opening.kind = .leftBracket → Derives .whole n ts index →
      closing.kind = .rightBracket →
      Derives .primary (n + 2) (name :: opening :: (ts ++ [closing]))
        (.element name.lexeme index name.line)
  | group {n : Nat} {ts : List Token} {e : Expr} {opening closing : Token} :
      opening.kind = .leftParen → Derives .whole n ts e → closing.kind = .rightParen →
      Derives .primary (n + 2) (opening :: (ts ++ [closing])) e
  | array {n : Nat} {ts : List Token} {es : List Expr} {opening closing : Token} :
      opening.kind = .leftBracket → Elements n ts es → closing.kind = .rightBracket →
      Derives .primary (n + 2) (opening :: (ts ++ [closing])) (.array es opening.line)

/-- `Elements n ts es`: the tokens `ts` are the expressions `es` with commas between them. -/
inductive Elements : Nat → List Token → List Expr → Prop
  | none {n : Nat} : Elements n [] []
  | first {n : Nat} {ts us : List Token} {e : Expr} {es : List Expr} :
      Derives .whole n ts e → MoreElements n us es → Elements n (ts ++ us) (e :: es)

/-- The elements after the first, a comma before each. -/
inductive MoreElements : Nat → List Token → List Expr → Prop
  | nil {n : Nat} : MoreElements n [] []
  | cons {n : Nat} {ts us : List Token} {comma : Token} {e : Expr} {es : List Expr} :
      comma.kind = .comma → Derives .whole n ts e → MoreElements n us es →
      MoreElements n (comma :: ts ++ us) (e :: es)

end

/-! ## Parts of statements -/

/-- `name = value`. -/
inductive Binds : Nat → List Token → Binding → Prop
  | mk {n : Nat} {ts : List Token} {value : Expr} {name equal : Token} :
      name.kind = .identifier → equal.kind = .equal → Derives .whole n ts value →
      Binds n (name :: equal :: ts) ⟨name.lexeme, value, name.line⟩

/-- A part that may be missing. -/
inductive Optionally {α : Type} (R : List Token → α → Prop) : List Token → Option α → Prop
  | missing : Optionally R [] none
  | present {ts : List Token} {a : α} : R ts a → Optionally R ts (some a)

/-- The first clause of a `for` loop: a declaration or an assignment. -/
inductive Initializes : Nat → List Token → ForInit → Prop
  | declare {n : Nat} {ts : List Token} {b : Binding} {keyword : Token} :
      keyword.kind = .kwLet → Binds n ts b → Initializes (n + 2) (keyword :: ts) (.declare b)
  | assign {n : Nat} {ts : List Token} {b : Binding} :
      Binds n ts b → Initializes n ts (.assign b)

/-! ## Statements -/

mutual

/-- `Statement n ts s`: the tokens `ts` are the statement `s`, nested at most `n` units deep. -/
inductive Statement : Nat → List Token → Stmt → Prop
  | declare {n : Nat} {ts : List Token} {b : Binding} {keyword semicolon : Token} :
      keyword.kind = .kwLet → Binds n ts b → semicolon.kind = .semicolon →
      Statement (n + 4) (keyword :: (ts ++ [semicolon])) (.declare b)
  | assign {n : Nat} {ts : List Token} {b : Binding} {semicolon : Token} :
      Binds n ts b → semicolon.kind = .semicolon →
      Statement (n + 4) (ts ++ [semicolon]) (.assign b)
  | assignElement {n : Nat} {ts us : List Token} {index value : Expr}
      {name opening closing equal semicolon : Token} :
      name.kind = .identifier → opening.kind = .leftBracket → Derives .whole n ts index →
      closing.kind = .rightBracket → equal.kind = .equal → Derives .whole n us value →
      semicolon.kind = .semicolon →
      Statement (n + 4) (name :: opening :: (ts ++ closing :: equal :: (us ++ [semicolon])))
        (.assignElement name.lexeme index value name.line)
  | print {n : Nat} {ts : List Token} {value : Expr} {keyword opening closing semicolon : Token} :
      keyword.kind = .kwPrint → opening.kind = .leftParen → Derives .whole n ts value →
      closing.kind = .rightParen → semicolon.kind = .semicolon →
      Statement (n + 4) (keyword :: opening :: (ts ++ [closing, semicolon]))
        (.print value keyword.line)
  | block {n : Nat} {ts : List Token} {body : List Stmt} {line : Int} :
      Block n ts body line → Statement (n + 4) ts (.block body line)
  | ifThen {n : Nat} {ts us : List Token} {condition : Expr} {body : List Stmt} {bodyLine : Int}
      {keyword opening closing : Token} :
      keyword.kind = .kwIf → opening.kind = .leftParen → Derives .whole (n + 2) ts condition →
      closing.kind = .rightParen → Block n us body bodyLine →
      Statement (n + 6) (keyword :: opening :: (ts ++ closing :: us))
        (.ifThen condition body bodyLine keyword.line)
  | ifElse {n : Nat} {ts us vs : List Token} {condition : Expr} {body otherwise : List Stmt}
      {bodyLine otherwiseLine : Int} {keyword opening closing separator : Token} :
      keyword.kind = .kwIf → opening.kind = .leftParen → Derives .whole (n + 2) ts condition →
      closing.kind = .rightParen → Block n us body bodyLine → separator.kind = .kwElse →
      Block n vs otherwise otherwiseLine →
      Statement (n + 6) (keyword :: opening :: (ts ++ closing :: (us ++ separator :: vs)))
        (.ifElse condition body bodyLine otherwise otherwiseLine keyword.line)
  | whileLoop {n : Nat} {ts us : List Token} {condition : Expr} {body : List Stmt} {bodyLine : Int}
      {keyword opening closing : Token} :
      keyword.kind = .kwWhile → opening.kind = .leftParen → Derives .whole (n + 2) ts condition →
      closing.kind = .rightParen → Block n us body bodyLine →
      Statement (n + 6) (keyword :: opening :: (ts ++ closing :: us))
        (.whileLoop condition body bodyLine keyword.line)
  | forLoop {n : Nat} {ts us vs ws : List Token} {clauses : ForClauses} {body : List Stmt}
      {bodyLine : Int} {keyword opening semicolon semicolon' closing : Token} :
      keyword.kind = .kwFor → opening.kind = .leftParen →
      Optionally (Initializes (n + 2)) ts clauses.init → semicolon.kind = .semicolon →
      Optionally (Derives .whole (n + 2)) us clauses.condition → semicolon'.kind = .semicolon →
      Optionally (Binds (n + 1)) vs clauses.increment → closing.kind = .rightParen →
      Block n ws body bodyLine →
      Statement (n + 6)
        (keyword :: opening :: (ts ++ semicolon :: (us ++ semicolon' :: (vs ++ closing :: ws))))
        (.forLoop clauses body bodyLine keyword.line)

/-- `Block n ts body line`: the tokens `ts` are the statements `body` between braces, with the
opening one on a line. -/
inductive Block : Nat → List Token → List Stmt → Int → Prop
  | braces {n : Nat} {ts : List Token} {body : List Stmt} {opening closing : Token} :
      opening.kind = .leftBrace → Statements n ts body → closing.kind = .rightBrace →
      Block n (opening :: (ts ++ [closing])) body opening.line

/-- `Statements n ts ss`: the tokens `ts` are the statements `ss`, one after the other. -/
inductive Statements : Nat → List Token → List Stmt → Prop
  | nil {n : Nat} : Statements n [] []
  | cons {n : Nat} {ts us : List Token} {s : Stmt} {ss : List Stmt} :
      Statement n ts s → Statements n us ss → Statements n (ts ++ us) (s :: ss)

end

/-! ## How derivations begin -/

/-- No expression begins with a semicolon or a closing bracket. -/
theorem Derives.head {level : Level} {n : Nat} {ts : List Token} {e : Expr}
    (h : Derives level n ts e) :
    ∃ t us, ts = t :: us ∧ t.kind ≠ .semicolon ∧ t.kind ≠ .rightBracket := by
  refine @Derives.rec
    (fun _ _ ts _ _ => ∃ t us, ts = t :: us ∧ t.kind ≠ .semicolon ∧ t.kind ≠ .rightBracket)
    (fun _ _ _ _ => True) (fun _ _ _ _ => True)
    ?whole ?operand ?binary ?unsigned ?sign ?number ?string ?char ?name ?element ?group ?array
    ?none ?first ?nil ?cons level n ts e h
  case whole => exact fun _ ih => ih
  case operand => exact fun _ _ ih => ih
  case binary =>
    rintro level tighter n ts us left right operator op - - - - ⟨t, vs, rfl, ht⟩ -
    exact ⟨t, vs ++ operator :: us, rfl, ht⟩
  case unsigned => exact fun _ ih => ih
  case sign =>
    intro n ts e operator op hop _ _
    refine ⟨operator, ts, rfl, ?_, ?_⟩ <;>
    · intro hk
      rw [hk] at hop
      cases hop
  case number => exact fun {_ t _} ht _ => ⟨t, [], rfl, by simp [ht]⟩
  case string => exact fun {_ t _} ht _ => ⟨t, [], rfl, by simp [ht]⟩
  case char => exact fun {_ t _} ht _ => ⟨t, [], rfl, by simp [ht]⟩
  case name => exact fun {_ t} ht => ⟨t, [], rfl, by simp [ht]⟩
  case element => exact fun hn _ _ _ _ => ⟨_, _, rfl, by simp [hn]⟩
  case group => exact fun ho _ _ _ => ⟨_, _, rfl, by simp [ho]⟩
  case array => exact fun ho _ _ _ => ⟨_, _, rfl, by simp [ho]⟩
  case none => exact trivial
  case first => exact fun _ _ _ _ => trivial
  case nil => exact trivial
  case cons => exact fun _ _ _ _ _ => trivial

theorem Binds.head {n : Nat} {ts : List Token} {b : Binding} (h : Binds n ts b) :
    ∃ t us, ts = t :: us ∧ t.kind = .identifier := by
  obtain ⟨hn, -, -⟩ := h
  exact ⟨_, _, rfl, hn⟩

/-- No statement begins with a closing brace or with `else`. -/
theorem Statement.head {n : Nat} {ts : List Token} {s : Stmt} (h : Statement n ts s) :
    ∃ t us, ts = t :: us ∧ t.kind ≠ .rightBrace ∧ t.kind ≠ .kwElse := by
  cases h with
  | declare hk => exact ⟨_, _, rfl, by simp [hk]⟩
  | assign h =>
    obtain ⟨t, us, rfl, ht⟩ := h.head
    exact ⟨t, _, rfl, by simp [ht]⟩
  | assignElement hn => exact ⟨_, _, rfl, by simp [hn]⟩
  | print hk => exact ⟨_, _, rfl, by simp [hk]⟩
  | block h =>
    obtain ⟨ho, -, -⟩ := h
    exact ⟨_, _, rfl, by simp [ho]⟩
  | ifThen hk => exact ⟨_, _, rfl, by simp [hk]⟩
  | ifElse hk => exact ⟨_, _, rfl, by simp [hk]⟩
  | whileLoop hk => exact ⟨_, _, rfl, by simp [hk]⟩
  | forLoop hk => exact ⟨_, _, rfl, by simp [hk]⟩

/-! ## Raising the bound on nesting -/

theorem exists_add_of_le {n m k : Nat} (h : n + k ≤ m) : ∃ i, m = i + k ∧ n ≤ i :=
  ⟨m - k, by omega, by omega⟩

/-- The bound on the nesting of an expression may be raised. -/
theorem Derives.mono {level : Level} {n m : Nat} {ts : List Token} {e : Expr}
    (h : Derives level n ts e) (hm : n ≤ m) : Derives level m ts e := by
  refine @Derives.rec (fun level n ts e _ => ∀ m, n ≤ m → Derives level m ts e)
    (fun n ts es _ => ∀ m, n ≤ m → Elements m ts es)
    (fun n ts es _ => ∀ m, n ≤ m → MoreElements m ts es)
    ?whole ?operand ?binary ?unsigned ?sign ?number ?string ?char ?name ?element ?group ?array
    ?none ?first ?nil ?cons level n ts e h m hm
  case whole =>
    intro n ts e _ ih m hm
    obtain ⟨i, rfl, hi⟩ := exists_add_of_le hm
    exact .whole (ih i hi)
  case operand =>
    intro level tighter n ts e hl _ ih m hm
    obtain ⟨i, rfl, hi⟩ := exists_add_of_le hm
    exact .operand hl (ih i hi)
  case binary =>
    intro level tighter n ts us left right operator op _ hop hl _ ihl ihr m hm
    have hleft := ihl m hm
    obtain ⟨i, rfl, hi⟩ := exists_add_of_le hm
    exact .binary hleft hop hl (ihr i hi)
  case unsigned =>
    intro n ts e _ ih m hm
    obtain ⟨i, rfl, hi⟩ := exists_add_of_le hm
    exact .unsigned (ih i hi)
  case sign =>
    intro n ts e operator op hop _ ih m hm
    obtain ⟨i, rfl, hi⟩ := exists_add_of_le hm
    exact .sign hop (ih i hi)
  case number =>
    intro n t x ht hx m hm
    obtain ⟨i, rfl, -⟩ := exists_add_of_le hm
    exact .number ht hx
  case string =>
    intro n t text ht htext m hm
    obtain ⟨i, rfl, -⟩ := exists_add_of_le hm
    exact .string ht htext
  case char =>
    intro n t c ht hc m hm
    obtain ⟨i, rfl, -⟩ := exists_add_of_le hm
    exact .char ht hc
  case name =>
    intro n t ht m hm
    obtain ⟨i, rfl, -⟩ := exists_add_of_le hm
    exact .variable ht
  case element =>
    intro n ts index name opening closing hn ho _ hc ih m hm
    obtain ⟨i, rfl, hi⟩ := exists_add_of_le hm
    exact .element hn ho (ih i hi) hc
  case group =>
    intro n ts e opening closing ho _ hc ih m hm
    obtain ⟨i, rfl, hi⟩ := exists_add_of_le hm
    exact .group ho (ih i hi) hc
  case array =>
    intro n ts es opening closing ho _ hc ih m hm
    obtain ⟨i, rfl, hi⟩ := exists_add_of_le hm
    exact .array ho (ih i hi) hc
  case none => exact fun m _ => .none
  case first => exact fun _ _ ih ihs m hm => .first (ih m hm) (ihs m hm)
  case nil => exact fun m _ => .nil
  case cons => exact fun hc _ _ ih ihs m hm => .cons hc (ih m hm) (ihs m hm)

theorem Binds.mono {n m : Nat} {ts : List Token} {b : Binding} (h : Binds n ts b)
    (hm : n ≤ m) : Binds m ts b := by
  cases h with
  | mk hn he h => exact .mk hn he (h.mono hm)

theorem Initializes.mono {n m : Nat} {ts : List Token} {i : ForInit} (h : Initializes n ts i)
    (hm : n ≤ m) : Initializes m ts i := by
  cases h with
  | declare hk h =>
    obtain ⟨i, rfl, hi⟩ := exists_add_of_le hm
    exact .declare hk (h.mono hi)
  | assign h => exact .assign (h.mono hm)

theorem Optionally.imp {α : Type} {R S : List Token → α → Prop} {ts : List Token} {a : Option α}
    (h : Optionally R ts a) (himp : ∀ us b, R us b → S us b) : Optionally S ts a := by
  cases h with
  | missing => exact .missing
  | present h => exact .present (himp _ _ h)

/-- The bound on the nesting of statements may be raised. -/
theorem Statements.mono {n m : Nat} {ts : List Token} {ss : List Stmt} (h : Statements n ts ss)
    (hm : n ≤ m) : Statements m ts ss := by
  refine @Statements.rec (fun n ts s _ => ∀ m, n ≤ m → Statement m ts s)
    (fun n ts body line _ => ∀ m, n ≤ m → Block m ts body line)
    (fun n ts ss _ => ∀ m, n ≤ m → Statements m ts ss)
    ?declare ?assign ?assignElement ?print ?block ?ifThen ?ifElse ?whileLoop ?forLoop
    ?braces ?nil ?cons n ts ss h m hm
  case declare =>
    intro n ts b keyword semicolon hk h hs m hm
    obtain ⟨i, rfl, hi⟩ := exists_add_of_le hm
    exact .declare hk (h.mono hi) hs
  case assign =>
    intro n ts b semicolon h hs m hm
    obtain ⟨i, rfl, hi⟩ := exists_add_of_le hm
    exact .assign (h.mono hi) hs
  case assignElement =>
    intro n ts us index value name opening closing equal semicolon hn ho h hc he hv hs m hm
    obtain ⟨i, rfl, hi⟩ := exists_add_of_le hm
    exact .assignElement hn ho (h.mono hi) hc he (hv.mono hi) hs
  case print =>
    intro n ts value keyword opening closing semicolon hk ho h hc hs m hm
    obtain ⟨i, rfl, hi⟩ := exists_add_of_le hm
    exact .print hk ho (h.mono hi) hc hs
  case block =>
    intro n ts body line _ ih m hm
    obtain ⟨i, rfl, hi⟩ := exists_add_of_le hm
    exact .block (ih i hi)
  case ifThen =>
    intro n ts us condition body bodyLine keyword opening closing hk ho h hc _ ih m hm
    obtain ⟨i, rfl, hi⟩ := exists_add_of_le hm
    exact .ifThen hk ho (h.mono (Nat.add_le_add_right hi 2)) hc (ih i hi)
  case ifElse =>
    intro n ts us vs condition body otherwise bodyLine otherwiseLine keyword opening closing
      separator hk ho h hc _ hs _ ih ih' m hm
    obtain ⟨i, rfl, hi⟩ := exists_add_of_le hm
    exact .ifElse hk ho (h.mono (Nat.add_le_add_right hi 2)) hc (ih i hi) hs (ih' i hi)
  case whileLoop =>
    intro n ts us condition body bodyLine keyword opening closing hk ho h hc _ ih m hm
    obtain ⟨i, rfl, hi⟩ := exists_add_of_le hm
    exact .whileLoop hk ho (h.mono (Nat.add_le_add_right hi 2)) hc (ih i hi)
  case forLoop =>
    intro n ts us vs ws clauses body bodyLine keyword opening semicolon semicolon' closing hk ho
      hinit hs hcond hs' hinc hc _ ih m hm
    obtain ⟨i, rfl, hi⟩ := exists_add_of_le hm
    exact .forLoop hk ho (hinit.imp fun _ _ h => h.mono (Nat.add_le_add_right hi 2)) hs
      (hcond.imp fun _ _ h => h.mono (Nat.add_le_add_right hi 2)) hs'
      (hinc.imp fun _ _ h => h.mono (Nat.add_le_add_right hi 1)) hc (ih i hi)
  case braces => exact fun ho _ hc ih m hm => .braces ho (ih m hm) hc
  case nil => exact fun m _ => .nil
  case cons => exact fun _ _ ih ihs m hm => .cons (ih m hm) (ihs m hm)

end Scriptlet.Grammar
