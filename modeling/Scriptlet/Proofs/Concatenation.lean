import Mathlib
import Scriptlet.Proofs.Grammar.FirstError
import Scriptlet.Proofs.Relabeling
import Scriptlet.Proofs.Spacing

/-!
# One text after another

Two texts that can be read are put one after the other, with a line break between them.  Nothing
leaks over the break: no segment that ends before it goes on behind it, since a string or a
character that is open there would not have been read in the first place; and a statement that is
complete there is not continued, since what follows can be read on its own and so does not begin
with `else`.  What is behind the break stands further down, and nothing else about it is changed.

## What is here

* `Segment.scan_append_newline` — the cuts of the two texts are the cuts of both together.
* `tokenize_append_newline` — so are their tokens, the later ones further down.
* `Statements.append`, `Statements.reline` — derivations one after the other, and on other lines.
* `readStatements_append` — **texts compose**.
-/

set_option autoImplicit false
namespace Scriptlet

/-! ## Segments end at the break -/

namespace Segment

/-- What a class of characters takes from a text stops at a character outside the class. -/
theorem takeWhile_append_cons {p : Char → Bool} {x : Char} (hx : p x = false) (cs t : List Char) :
    (cs ++ x :: t).takeWhile p = cs.takeWhile p := by
  induction cs with
  | nil => simp [hx]
  | cons c cs ih => simp only [List.cons_append, List.takeWhile_cons, ih]

/-- The next character is the same, unless it is the break. -/
theorem head?_append_newline {x : Char} (hx : x ≠ '\n') (cs t : List Char) :
    (cs ++ '\n' :: t).head? = some x ↔ cs.head? = some x := by
  cases cs with
  | nil => simpa using hx.symm
  | cons c cs => rfl

theorem numberTail_append_newline (cs t : List Char) :
    numberTail (cs ++ '\n' :: t) = numberTail cs := by
  have hdrop : (cs ++ '\n' :: t).drop (cs.takeWhile Char.isDigit).length =
      cs.drop (cs.takeWhile Char.isDigit).length ++ '\n' :: t :=
    List.drop_append_of_le_length (length_takeWhile_le _ cs)
  rw [numberTail, numberTail, takeWhile_append_cons (by decide), hdrop]
  -- a point at the very end has no digit behind it, with or without the break
  rcases cs.drop (cs.takeWhile Char.isDigit).length with _ | ⟨x, _ | ⟨d, rest⟩⟩
  · rfl
  · by_cases hx : x = '.' <;> simp [hx]
  · by_cases hx : x = '.'
    · simp [hx, takeWhile_append_cons]
    · simp [hx]

theorem symbol?_append_newline (c : Char) (cs t : List Char) :
    symbol? c (cs ++ '\n' :: t) = symbol? c cs := by
  cases cs with
  | nil =>
    rw [symbol?.eq_def, symbol?.eq_def]
    simp only [List.nil_append, List.head?_cons, List.head?_nil]
    split <;> simp_all
  | cons d cs => rfl

/-- **No segment goes over the break** if it ends before it. -/
theorem measure?_append_newline {c : Char} {cs : List Char} {m : SegmentKind × Nat}
    (h : measure? c cs = some m) (t : List Char) : measure? c (cs ++ '\n' :: t) = some m := by
  by_cases hquote : c = '"'
  · subst hquote
    have hmem : '"' ∈ cs := by
      by_contra hmem
      simp [measure?, isSeparator, hmem] at h
    obtain ⟨body, rest, rfl, hbody⟩ := List.eq_append_cons_of_mem hmem
    rw [← h, List.append_assoc, List.cons_append, measure?_string hbody, measure?_string hbody]
  by_cases hapostrophe : c = '\''
  · subst hapostrophe
    rcases cs with _ | ⟨x, _ | ⟨y, rest⟩⟩
    · simp [measure?, isSeparator] at h
    · simp [measure?, isSeparator] at h
    · rw [← h]
      rfl
  · have hslash : (cs ++ '\n' :: t).head? = some '/' ↔ cs.head? = some '/' :=
      head?_append_newline (by decide) cs t
    have hcomment : (cs ++ '\n' :: t).takeWhile (· ≠ '\n') = cs.takeWhile (· ≠ '\n') :=
      takeWhile_append_cons (by decide) cs t
    have hblanks : (cs ++ '\n' :: t).takeWhile isSeparator = cs.takeWhile isSeparator :=
      takeWhile_append_cons (by decide) cs t
    have hword : (cs ++ '\n' :: t).takeWhile isWordPart = cs.takeWhile isWordPart :=
      takeWhile_append_cons (by decide) cs t
    rw [← h]
    simp only [measure?, hslash, hcomment, hblanks, hword, numberTail_append_newline,
      symbol?_append_newline, if_neg hquote, if_neg hapostrophe]

theorem scan_append_newline {cs : List Char} (h : (scan cs).2 = []) (t : List Char) :
    scan (cs ++ '\n' :: t) = ((scan cs).1 ++ ⟨.newline, ['\n']⟩ :: (scan t).1, (scan t).2) := by
  fun_induction scan cs with
  | case1 => rw [List.nil_append, scan, measure?_newline]; rfl
  | case2 => exact absurd h (List.cons_ne_nil _ _)
  | case3 c cs kind n hmeasure segments rest hscan ih =>
    have hn : n ≤ cs.length := (measure?_sound hmeasure).1
    rw [hscan] at ih
    rw [List.cons_append, scan, measure?_append_newline hmeasure]
    simp only [List.take_append_of_le_length hn, List.drop_append_of_le_length hn, ih h,
      List.cons_append]

end Segment

/-! ## Tokens -/

/-- The token on another line. -/
def Token.reline (f : Int → Int) (t : Token) : Token :=
  { t with line := f t.line }

theorem Token.locate_append (line : Int) (xs ys : List Segment) :
    Token.locate line (xs ++ ys) =
      Token.locate line xs ++ Token.locate (line + newlines (xs.flatMap Segment.text)) ys := by
  induction xs generalizing line with
  | nil => simp [Token.locate, newlines]
  | cons x xs ih =>
    rw [List.cons_append, Token.locate, Token.locate, List.flatMap_cons, newlines_append,
      ← add_assoc, ih]
    cases x.kind <;> rfl

theorem Token.locate_add (line n : Int) (xs : List Segment) :
    Token.locate (line + n) xs = (Token.locate line xs).map (Token.reline (· + n)) := by
  induction xs generalizing line with
  | nil => rfl
  | cons x xs ih =>
    rw [Token.locate, Token.locate, add_right_comm, ih]
    cases x.kind <;> rfl

theorem tokenize_eq_ok_iff {source : List Char} {tokens : TokenStream} :
    tokenize source = .ok tokens ↔ (Segment.scan source).2 = [] ∧
      tokens = ⟨Token.locate 1 (Segment.scan source).1, 1 + newlines source⟩ := by
  cases hleft : (Segment.scan source).2 with
  | nil => simp [tokenize_of_left_nil hleft, Token.locate_one, eq_comm]
  | cons c cs => simp [tokenize_of_left_cons hleft]

/-- The tokens of two texts with a line break between them are the tokens of both, the later ones
further down. -/
theorem tokenize_append_newline {s t : List Char} {ts us : TokenStream} (hs : tokenize s = .ok ts)
    (ht : tokenize t = .ok us) : tokenize (s ++ '\n' :: t) =
      .ok ⟨ts.tokens ++ us.tokens.map (Token.reline (· + (1 + newlines s))),
        us.endLine + (1 + newlines s)⟩ := by
  obtain ⟨hleft, rfl⟩ := tokenize_eq_ok_iff.1 hs
  obtain ⟨hleft', rfl⟩ := tokenize_eq_ok_iff.1 ht
  have htext : (Segment.scan s).1.flatMap Segment.text = s := by
    have happend := Segment.scan_append s
    rwa [hleft, List.append_nil] at happend
  have hfeed : newlines ['\n'] = 1 := rfl
  rw [tokenize_eq_ok_iff, Segment.scan_append_newline hleft]
  refine ⟨hleft', TokenStream.mk.injEq _ _ _ _ ▸ ⟨?_, ?_⟩⟩
  · rw [Token.locate_append, htext, Token.locate, hfeed, ← Token.locate_add]
    congr 2
    ring
  · rw [← List.singleton_append, newlines_append, newlines_append, hfeed]
    ring

/-! ## Derivations -/

namespace Grammar

section

variable (f : Int → Int)

/-- Tokens on other lines are the expression on other lines. -/
theorem Derives.reline {level : Level} {n : Nat} {ts : List Token} {e : Expr}
    (h : Derives level n ts e) :
    Derives level n (ts.map (Token.reline f)) (e.relabel { line := f }) := by
  refine @Derives.rec
    (fun level n ts e _ => Derives level n (ts.map (Token.reline f)) (e.relabel { line := f }))
    (fun n ts es _ => Elements n (ts.map (Token.reline f)) (Expr.relabelAll { line := f } es))
    (fun n ts es _ => MoreElements n (ts.map (Token.reline f)) (Expr.relabelAll { line := f } es))
    ?whole ?operand ?binary ?unsigned ?sign ?number ?string ?char ?name ?element ?group ?array
    ?none ?first ?nil ?cons level n ts e h
  case whole => exact fun _ ih => .whole ih
  case operand => exact fun hl _ ih => .operand hl ih
  case binary =>
    intro level tighter n ts us left right operator op _ hop hl _ ihl ihr
    rw [List.map_append, List.map_cons, Expr.relabel]
    exact .binary ihl hop hl ihr
  case unsigned => exact fun _ ih => .unsigned ih
  case sign =>
    intro n ts e operator op hop _ ih
    rw [List.map_cons, Expr.relabel]
    exact .sign hop ih
  case number => exact fun ht hx => by rw [Expr.relabel]; exact .number ht hx
  case string => exact fun ht htext => by rw [Expr.relabel]; exact .string ht htext
  case char => exact fun ht hc => by rw [Expr.relabel]; exact .char ht hc
  case name => exact fun ht => by rw [Expr.relabel]; exact .variable ht
  case element =>
    intro n ts index name opening closing hn ho _ hc ih
    rw [List.map_cons, List.map_cons, List.map_append, Expr.relabel]
    exact .element hn ho ih hc
  case group =>
    intro n ts e opening closing ho _ hc ih
    rw [List.map_cons, List.map_append]
    exact .group ho ih hc
  case array =>
    intro n ts es opening closing ho _ hc ih
    rw [List.map_cons, List.map_append, Expr.relabel]
    exact .array ho ih hc
  case none => exact .none
  case first =>
    intro n ts us e es _ _ ih ihs
    rw [List.map_append, Expr.relabelAll]
    exact .first ih ihs
  case nil => exact .nil
  case cons =>
    intro n ts us comma e es hcomma _ _ ih ihs
    rw [List.map_append, List.map_cons, Expr.relabelAll]
    exact .cons hcomma ih ihs

theorem Binds.reline {n : Nat} {ts : List Token} {b : Binding} (h : Binds n ts b) :
    Binds n (ts.map (Token.reline f)) (b.relabel { line := f }) := by
  cases h with
  | mk hn he h => exact .mk hn he (h.reline f)

theorem Initializes.reline {n : Nat} {ts : List Token} {i : ForInit} (h : Initializes n ts i) :
    Initializes n (ts.map (Token.reline f)) (i.relabel { line := f }) := by
  cases h with
  | declare hk h => exact .declare hk (h.reline f)
  | assign h => exact .assign (h.reline f)

theorem Optionally.reline {α : Type} {R : List Token → α → Prop} {g : α → α} {ts : List Token}
    {a : Option α} (h : Optionally R ts a)
    (hR : ∀ us b, R us b → R (us.map (Token.reline f)) (g b)) :
    Optionally R (ts.map (Token.reline f)) (a.map g) := by
  cases h with
  | missing => exact .missing
  | present h => exact .present (hR _ _ h)

/-- Tokens on other lines are the statements on other lines. -/
theorem Statements.reline {n : Nat} {ts : List Token} {ss : List Stmt} (h : Statements n ts ss) :
    Statements n (ts.map (Token.reline f)) (Stmt.relabelAll { line := f } ss) := by
  refine @Statements.rec
    (fun n ts s _ => Statement n (ts.map (Token.reline f)) (s.relabel { line := f }))
    (fun n ts body line _ =>
      Block n (ts.map (Token.reline f)) (Stmt.relabelAll { line := f } body) (f line))
    (fun n ts ss _ => Statements n (ts.map (Token.reline f)) (Stmt.relabelAll { line := f } ss))
    ?declare ?assign ?assignElement ?print ?block ?ifThen ?ifElse ?whileLoop ?forLoop
    ?braces ?nil ?cons n ts ss h
  case declare =>
    intro n ts b keyword semicolon hk h hs
    rw [List.map_cons, List.map_append, Stmt.relabel]
    exact .declare hk (h.reline f) hs
  case assign =>
    intro n ts b semicolon h hs
    rw [List.map_append, Stmt.relabel]
    exact .assign (h.reline f) hs
  case assignElement =>
    intro n ts us index value name opening closing equal semicolon hn ho h hc he hv hs
    simp only [List.map_cons, List.map_append, Stmt.relabel]
    exact .assignElement hn ho (h.reline f) hc he (hv.reline f) hs
  case print =>
    intro n ts value keyword opening closing semicolon hk ho h hc hs
    simp only [List.map_cons, List.map_append, Stmt.relabel]
    exact .print hk ho (h.reline f) hc hs
  case block =>
    intro n ts body line _ ih
    rw [Stmt.relabel]
    exact .block ih
  case ifThen =>
    intro n ts us condition body bodyLine keyword opening closing hk ho h hc _ ih
    simp only [List.map_cons, List.map_append, Stmt.relabel]
    exact .ifThen hk ho (h.reline f) hc ih
  case ifElse =>
    intro n ts us vs condition body otherwise bodyLine otherwiseLine keyword opening closing
      separator hk ho h hc _ hs _ ih ih'
    simp only [List.map_cons, List.map_append, Stmt.relabel]
    exact .ifElse hk ho (h.reline f) hc ih hs ih'
  case whileLoop =>
    intro n ts us condition body bodyLine keyword opening closing hk ho h hc _ ih
    simp only [List.map_cons, List.map_append, Stmt.relabel]
    exact .whileLoop hk ho (h.reline f) hc ih
  case forLoop =>
    intro n ts us vs ws clauses body bodyLine keyword opening semicolon semicolon' closing hk ho
      hinit hs hcondition hs' hincrement hc _ ih
    simp only [List.map_cons, List.map_append, Stmt.relabel]
    exact .forLoop hk ho (hinit.reline f fun _ _ h => h.reline f) hs
      (hcondition.reline f fun _ _ h => h.reline f) hs'
      (hincrement.reline f fun _ _ h => h.reline f) hc ih
  case braces =>
    intro n ts body opening closing ho _ hc ih
    rw [List.map_cons, List.map_append]
    exact .braces ho ih hc
  case nil => exact .nil
  case cons =>
    intro n ts us s ss _ _ ih ihs
    rw [List.map_append, Stmt.relabelAll]
    exact .cons ih ihs

end

theorem Statements.append {n : Nat} {us : List Token} {ss ss' : List Stmt}
    (h' : Statements n us ss') :
    ∀ {ts : List Token}, Statements n ts ss → Statements n (ts ++ us) (ss ++ ss') := by
  induction ss with
  | nil =>
    intro ts h
    cases h
    exact h'
  | cons s ss ih =>
    intro ts h
    obtain _ | ⟨h, hs⟩ := h
    rw [List.append_assoc]
    exact .cons h (ih hs)

/-- What the grammar derives within the limit is read. -/
theorem parse_of_statements [Limits] {ts : List Token} {ss : List Stmt}
    (h : Statements Limits.nesting ts ss) (line : Int) : parse ⟨ts, line⟩ = .ok ss := by
  have hrun := (h.reads_programWithin : Reads line _ ts [] ss) 0
  rw [← program_eq, List.append_nil] at hrun
  exact parse_of_ok (Cursor.start_eq_before ⟨ts, line⟩ ▸ hrun)

end Grammar

/-! ## Texts -/

theorem readStatements_eq_ok_iff [Limits] {source : List Char} {tokens : TokenStream}
    {ss : List Stmt} :
    readStatements source = .ok (tokens, ss) ↔
      tokenize source = .ok tokens ∧ Grammar.parse tokens = .ok ss := by
  rw [readStatements]
  constructor
  · intro h
    split at h
    · cases h
    · next htokens =>
      split at h
      · cases h
      · next hparse =>
        cases h
        exact ⟨htokens, hparse⟩
  · rintro ⟨htokens, hparse⟩
    simp [htokens, hparse]

/-- **Texts compose.**  If two texts can be read, so can both together with a line break between
them, whatever the first one ends with.  Its tokens are those of the first text and then those of
the second, and its statements likewise; everything that comes from the second text stands as many
lines further down as the first text and the break take, and nothing else is changed. -/
theorem readStatements_append [Limits] {s t : List Char} {ts us : TokenStream} {p q : List Stmt}
    (hs : readStatements s = .ok (ts, p)) (ht : readStatements t = .ok (us, q)) :
    let further : Int → Int := (· + (1 + newlines s))
    (tokenize (s ++ '\n' :: t)).map TokenStream.toList =
      .ok (ts.tokens ++ us.toList.map (Token.reline further)) ∧
    (readStatements (s ++ '\n' :: t)).map Prod.snd =
      .ok (p ++ q.map (Stmt.relabel { line := further })) := by
  intro further
  obtain ⟨hs, hp⟩ := readStatements_eq_ok_iff.1 hs
  obtain ⟨ht, hq⟩ := readStatements_eq_ok_iff.1 ht
  have htokens := tokenize_append_newline hs ht
  have hp' := Grammar.Statements.of_parse (lexical_of_tokenize hs) hp
  have hq' := Grammar.Statements.of_parse (lexical_of_tokenize ht) hq
  have hstatements : Grammar.Statements Limits.nesting
      (ts.tokens ++ us.tokens.map (Token.reline further))
      (p ++ q.map (Stmt.relabel { line := further })) := by
    rw [← Stmt.relabelAll_eq_map]
    exact (hq'.reline further).append hp'
  refine ⟨?_, ?_⟩
  · rw [htokens]
    simp [Except.map, TokenStream.toList, TokenStream.endToken, Token.reline, further]
  · have hread := readStatements_eq_ok_iff.2
      ⟨htokens, Grammar.parse_of_statements hstatements (us.endLine + (1 + newlines s))⟩
    rw [hread]
    rfl

/-- A conditional without `else`, a comment that nothing ends but the break, and a string over two
lines behind it. -/
theorem readStatements_append_comment :
    let _ : Limits := ⟨40, 1⟩
    let first := "if (x) \x7b \x7d // no more"
    let second := "print(\"a\nb\");\nprint(y);"
    let p := [Stmt.ifThen (.variable "x" 1) [] 1 1]
    let q := [Stmt.print (.literal (.string "a\nb") 1) 1, .print (.variable "y" 3) 3]
    (∃ ts, readStatements first.toList = .ok (ts, p)) ∧
    (∃ us, readStatements second.toList = .ok (us, q)) ∧
    (readStatements (first.toList ++ '\n' :: second.toList)).map Prod.snd =
      .ok [.ifThen (.variable "x" 1) [] 1 1, .print (.literal (.string "a\nb") 2) 2,
        .print (.variable "y" 4) 4] := by
  intro limits first second p q
  have hs : tokenize first.toList = .ok ⟨[⟨.kwIf, "if", 1⟩, ⟨.leftParen, "(", 1⟩,
      ⟨.identifier, "x", 1⟩, ⟨.rightParen, ")", 1⟩, ⟨.leftBrace, "\x7b", 1⟩,
      ⟨.rightBrace, "\x7d", 1⟩], 1⟩ := by cbv
  have ht : tokenize second.toList = .ok ⟨[⟨.kwPrint, "print", 1⟩, ⟨.leftParen, "(", 1⟩,
      ⟨.string, "\"a\nb\"", 1⟩, ⟨.rightParen, ")", 2⟩, ⟨.semicolon, ";", 2⟩,
      ⟨.kwPrint, "print", 3⟩, ⟨.leftParen, "(", 3⟩, ⟨.identifier, "y", 3⟩, ⟨.rightParen, ")", 3⟩,
      ⟨.semicolon, ";", 3⟩], 3⟩ := by cbv
  have hp : readStatements first.toList = .ok (_, p) := readStatements_eq_ok_iff.2 ⟨hs, rfl⟩
  have hq : readStatements second.toList = .ok (_, q) := readStatements_eq_ok_iff.2 ⟨ht, rfl⟩
  have hlines : newlines first.toList = 0 := by cbv
  refine ⟨⟨_, hp⟩, ⟨_, hq⟩, ?_⟩
  rw [(readStatements_append hp hq).2, hlines]
  simp [p, q, Stmt.relabel, Expr.relabel]

end Scriptlet
