import Mathlib
import Scriptlet.Proofs.Grammar.Completion

/-!
# An error names the first token that does not fit

Reading stops neither too late nor too early.  The tokens before the place where it stops are the
beginning of a program, since every parser is viable.  And no program begins with these tokens and
the one that reading stops at: if there were one, reading it with depth enough would succeed, but up
to that token it runs alongside the reading that failed.

The end of the text counts as a token here, so it has to be told from the others.

## What is here

* `kind_ne_endOfText_of_tokenize`, `Statements.inner` — neither a text nor a derivation
  has the end among its tokens.
* `Shared.of_beginning` — a text that begins with the first tokens of another shares them.
* `parse_error_at_first_misfit` — **what a parse error says**.
-/

set_option autoImplicit false
namespace Scriptlet

/-! ## The end is not among the tokens -/

theorem Lexeme.kind_ne_endOfText {kind : TokenKind} {text : List Char}
    (h : Lexeme (.token kind) text) : kind ≠ .endOfText := by
  cases h with
  | keyword hmem =>
    rintro rfl
    simp [keywords] at hmem
  | symbol hmem =>
    rintro rfl
    simp [symbols] at hmem
  | _ => decide

theorem kind_ne_endOfText_of_tokenize {source : List Char} {tokens : TokenStream}
    (h : tokenize source = .ok tokens) : ∀ t ∈ tokens.tokens, t.kind ≠ .endOfText :=
  fun t ht => (lexical_of_tokenize h t ht).kind_ne_endOfText

namespace Grammar

/-- The end of the text is not among some tokens. -/
def Inner (ts : List Token) : Prop :=
  ∀ t ∈ ts, t.kind ≠ .endOfText

@[simp] theorem inner_nil : Inner [] :=
  fun _ h => absurd h List.not_mem_nil

@[simp] theorem inner_cons {t : Token} {ts : List Token} :
    Inner (t :: ts) ↔ t.kind ≠ .endOfText ∧ Inner ts :=
  List.forall_mem_cons

@[simp] theorem inner_append {ts us : List Token} : Inner (ts ++ us) ↔ Inner ts ∧ Inner us :=
  List.forall_mem_append

theorem Derives.inner {level : Level} {n : Nat} {ts : List Token} {e : Expr}
    (h : Derives level n ts e) : Inner ts := by
  refine @Derives.rec (fun _ _ ts _ _ => Inner ts) (fun _ ts _ _ => Inner ts)
    (fun _ ts _ _ => Inner ts)
    ?whole ?operand ?binary ?unsigned ?sign ?number ?string ?char ?name ?element ?group ?array
    ?none ?first ?nil ?cons level n ts e h
  case whole => exact fun _ ih => ih
  case operand => exact fun _ _ ih => ih
  case binary =>
    exact fun _ hop _ _ ihl ihr => by
      simp [kind_ne_endOfText_of_operator (joins_iff.1 hop), ihl, ihr]
  case unsigned => exact fun _ ih => ih
  case sign => exact fun hop _ ih => by simp [kind_ne_endOfText_of_sign (signs_iff.1 hop), ih]
  case number => exact fun ht _ => by simp [ht]
  case string => exact fun ht _ => by simp [ht]
  case char => exact fun ht _ => by simp [ht]
  case name => exact fun ht => by simp [ht]
  case element => exact fun hn ho _ hc ih => by simp [hn, ho, hc, ih]
  case group => exact fun ho _ hc ih => by simp [ho, hc, ih]
  case array => exact fun ho _ hc ih => by simp [ho, hc, ih]
  case none => exact inner_nil
  case first => exact fun _ _ ih ihs => by simp [ih, ihs]
  case nil => exact inner_nil
  case cons => exact fun hcomma _ _ ih ihs => by simp [hcomma, ih, ihs]

theorem Binds.inner {n : Nat} {ts : List Token} {b : Binding} (h : Binds n ts b) : Inner ts := by
  obtain ⟨hn, he, h⟩ := h
  simp [hn, he, h.inner]

theorem Initializes.inner {n : Nat} {ts : List Token} {i : ForInit} (h : Initializes n ts i) :
    Inner ts := by
  cases h with
  | declare hk h => simp [hk, h.inner]
  | assign h => exact h.inner

theorem Optionally.inner {α : Type} {R : List Token → α → Prop} {ts : List Token} {a : Option α}
    (h : Optionally R ts a) (hR : ∀ us b, R us b → Inner us) : Inner ts := by
  cases h with
  | missing => exact inner_nil
  | present h => exact hR _ _ h

theorem Statements.inner {n : Nat} {ts : List Token} {ss : List Stmt} (h : Statements n ts ss) :
    Inner ts := by
  refine @Statements.rec (fun _ ts _ _ => Inner ts) (fun _ ts _ _ _ => Inner ts)
    (fun _ ts _ _ => Inner ts)
    ?declare ?assign ?assignElement ?print ?block ?ifThen ?ifElse ?whileLoop ?forLoop
    ?braces ?nil ?cons n ts ss h
  case declare => exact fun hk h hs => by simp [hk, h.inner, hs]
  case assign => exact fun h hs => by simp [h.inner, hs]
  case assignElement =>
    exact fun hn ho hi hc he hv hs => by simp [hn, ho, hi.inner, hc, he, hv.inner, hs]
  case print => exact fun hk ho h hc hs => by simp [hk, ho, h.inner, hc, hs]
  case block => exact fun _ ih => ih
  case ifThen => exact fun hk ho h hc _ ih => by simp [hk, ho, h.inner, hc, ih]
  case ifElse => exact fun hk ho h hc _ hs _ ih ih' => by simp [hk, ho, h.inner, hc, ih, hs, ih']
  case whileLoop => exact fun hk ho h hc _ ih => by simp [hk, ho, h.inner, hc, ih]
  case forLoop =>
    exact fun hk ho hinit hs hcondition hs' hincrement hc _ ih => by
      simp [hk, ho, hinit.inner fun _ _ h => h.inner, hs, hcondition.inner fun _ _ h => h.inner,
        hs', hincrement.inner fun _ _ h => h.inner, hc, ih]
  case braces => exact fun ho _ hc ih => by simp [ho, hc, ih]
  case nil => exact inner_nil
  case cons => exact fun _ _ ih ihs => by simp [ih, ihs]

/-! ## Texts that begin alike -/

/-- A text that begins with the first tokens of another, the end counting as one, shares them. -/
theorem Shared.of_beginning {ts us : List Token} {line line' : Int} {k : Nat} (hts : Inner ts)
    (hus : Inner us)
    (h : ((TokenStream.toList ⟨ts, line⟩).take (k + 1)).map Token.unlined <+:
      (TokenStream.toList ⟨us, line'⟩).map Token.unlined) : Shared k ts us := by
  -- The tokens at the front are the same, and only at the end is either of them the end.
  rcases ts with _ | ⟨t, ts⟩ <;> rcases us with _ | ⟨u, us⟩
  · cases k <;> trivial
  · obtain ⟨hfront, -⟩ := List.cons_prefix_cons.1 h
    exact absurd (Token.unlined_eq_iff.1 hfront).1.symm (inner_cons.1 hus).1
  · obtain ⟨hfront, -⟩ := List.cons_prefix_cons.1 h
    exact absurd (Token.unlined_eq_iff.1 hfront).1 (inner_cons.1 hts).1
  · obtain ⟨hfront, hrest⟩ := List.cons_prefix_cons.1 h
    cases k with
    | zero => exact hfront
    | succ k => exact ⟨hfront, of_beginning (inner_cons.1 hts).2 (inner_cons.1 hus).2 hrest⟩

/-- A program that the grammar derives is read, given the depth of its derivation. -/
theorem Statements.reads_programWithin {line : Int} {n : Nat} {ts : List Token} {ss : List Stmt}
    (h : Statements n ts ss) : Reads line (programWithin n) ts [] ss := by
  have hall : ss = (ss.reverse ++ []).reverse := by simp
  rw [hall]
  exact .tokensAhead (h.reads [] _ (by simp)).bind_pure

/-! ## What a parse error says -/

/-- The comparison of a text with one that shares its tokens up to a place and may be nested
deeper. -/
def sharedUpTo (limit : Nat) : Comparison :=
  ⟨limit, (· ≠ .tooDeep)⟩

/-- No program begins with the tokens up to and with the one that reading stops at. -/
theorem not_shared_of_error [Limits] {tokens : TokenStream} {e : Error} {c : Cursor}
    (hrun : program.run (Cursor.start tokens) = .error e c) (hfault : e.fault ≠ .tooDeep)
    {n : Nat} {ts : List Token} {ss : List Stmt} (h : Statements n ts ss) :
    ¬ Shared c.position tokens.tokens ts := by
  intro hshared
  have hparallel : (sharedUpTo c.position).Parallel (List.map Stmt.unlined) program
      (programWithin (max Limits.nesting n)) := by
    rw [program_eq]
    exact parallel_programWithin ⟨le_max_left _ _, fun hcounted => absurd rfl hcounted⟩
  rw [Cursor.start_eq_before] at hrun
  obtain ⟨-, m, -, rfl⟩ := hparallel.moves.error hrun
  obtain ⟨e', hrun', -⟩ :=
    (hparallel.follows (Nat.zero_le _) hshared).error 0 le_rfl hfault hrun
  have hread : Reads 0 (programWithin (max Limits.nesting n)) ts [] ss :=
    (h.mono (le_max_right Limits.nesting n)).reads_programWithin
  have hok := hread 0
  rw [List.append_nil, hrun'] at hok
  cases hok

theorem getElem?_toList_before {tokens : TokenStream} {us rest : List Token}
    (h : tokens.tokens = us ++ rest) :
    tokens.toList[us.length]? = some (Cursor.before tokens.endLine us.length rest).current := by
  rw [TokenStream.toList, h, List.append_assoc, List.getElem?_append_right le_rfl, Nat.sub_self]
  cases rest <;> rfl

/-- **A parse error names the first token that does not fit.**  The token of the error is the one
that reading stopped at; the tokens before it can be completed to a program; and no program begins
with these tokens and that one, the end of the text counting as a token, whatever their lines. -/
theorem parse_error_at_first_misfit [Limits] {source : List Char} {tokens : TokenStream} {e : Error}
    (hs : tokenize source = .ok tokens) (he : parse tokens = .error e)
    (hfault : e.fault ≠ .tooDeep) :
    ∃ c, program.run (Cursor.start tokens) = .error e c ∧
      tokens.toList[c.position]? = some e.token ∧
      (∃ more n ss, (∀ t ∈ more, Spelled t) ∧
        Statements n (tokens.tokens.take c.position ++ more) ss) ∧
      ∀ n ts ss line, Statements n ts ss →
        ¬ (tokens.toList.take (c.position + 1)).map Token.unlined <+:
          (TokenStream.toList ⟨ts, line⟩).map Token.unlined := by
  obtain ⟨c, hrun⟩ : ∃ c, program.run (Cursor.start tokens) = .error e c := by
    rw [parse] at he
    split at he
    · cases he
    · next e' c hrun =>
      cases he
      exact ⟨c, hrun⟩
  have hviable := viable_programWithin Limits.nesting
  have hstop : program.run (.before tokens.endLine 0 tokens.tokens) = .error e c :=
    Cursor.start_eq_before tokens ▸ hrun
  obtain ⟨us, rest, htokens, hc, more, ss, hmore, hss⟩ :=
    (hviable.anywhere _).stuck _ _ _ e c (lexical_of_tokenize hs) rfl hstop hfault
  rw [Nat.zero_add] at hc
  have hplace : c.position = us.length := congrArg Cursor.position hc
  refine ⟨c, hrun, ?_, ?_, ?_⟩
  · rw [hplace, getElem?_toList_before htokens, ← hc, (moves_program.error hstop).1]
  · obtain ⟨n, hn⟩ := hss.exists
    refine ⟨more, n, ss, hmore, ?_⟩
    rwa [hplace, htokens, List.take_left]
  · intro n ts ss line h hprefix
    exact not_shared_of_error hrun hfault h
      (.of_beginning (kind_ne_endOfText_of_tokenize hs) h.inner hprefix)

/-- A semicolon where a parenthesis is still open. -/
theorem parse_error_at_first_misfit_open :
    let _ : Limits := ⟨40, 1⟩
    ∃ tokens e, tokenize "print(1 ;".toList = .ok tokens ∧ parse tokens = .error e ∧
      e.fault ≠ .tooDeep ∧ e.token = ⟨.semicolon, ";", 1⟩ ∧
      ∃ c, program.run (Cursor.start tokens) = .error e c ∧
        tokens.toList[c.position]? = some e.token ∧
        (∃ more n ss, (∀ t ∈ more, Spelled t) ∧
          Statements n (tokens.tokens.take c.position ++ more) ss) ∧
        ∀ n ts ss line, Statements n ts ss →
          ¬ (tokens.toList.take (c.position + 1)).map Token.unlined <+:
            (TokenStream.toList ⟨ts, line⟩).map Token.unlined := by
  intro limits
  have hs : tokenize "print(1 ;".toList = .ok ⟨[⟨.kwPrint, "print", 1⟩, ⟨.leftParen, "(", 1⟩,
      ⟨.number, "1", 1⟩, ⟨.semicolon, ";", 1⟩], 1⟩ := by cbv
  have he : parse ⟨[⟨.kwPrint, "print", 1⟩, ⟨.leftParen, "(", 1⟩, ⟨.number, "1", 1⟩,
      ⟨.semicolon, ";", 1⟩], 1⟩ = .error ⟨.unmet (.wants (.mark .rightParen)
        (.after "print expression")), ⟨.semicolon, ";", 1⟩⟩ := rfl
  exact ⟨_, _, hs, he, by decide, rfl, parse_error_at_first_misfit hs he (by decide)⟩

end Grammar

end Scriptlet
