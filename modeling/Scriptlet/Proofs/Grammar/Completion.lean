import Mathlib
import Scriptlet.Proofs.Grammar.Agreement

/-!
# What has been read can be completed

When a parser stops because the token under the cursor does not fit, the tokens it has moved over
are the beginning of something that it is meant to read: some tokens can be put after them.  This is
not so when it stops for lack of depth, and it cannot be said within a bound on nesting either,
since the tokens to come may need more of it.  So the grammar is taken here without its bounds.

## What is here

* `Unbounded R` — what is in `R` for all bounds on nesting that are large enough.
* `Spelled t` — a token that is read from its own lexeme; `sample kind` is one of each kind.
* `Fillable R` — some spelled tokens are in `R`.
* `Viable p R` — `p` accepts what is in `R`, and where it gets stuck, what it has moved over can be
  completed to something in `R`.  There is one rule for each move, as for `Accepts`.
* `viable_expression`, `viable_statement`, `viable_programWithin` — all parsers are viable.
-/

set_option autoImplicit false
namespace Scriptlet.Grammar

open Filter

/-! ## The grammar without bounds -/

/-- What is in a relation for all bounds on nesting that are large enough. -/
def Unbounded {α : Type} (R : Nat → List Token → α → Prop) (ts : List Token) (a : α) : Prop :=
  ∀ᶠ n in atTop, R n ts a

theorem Unbounded.of_le {α : Type} {R : Nat → List Token → α → Prop} {ts : List Token} {a : α}
    {n : Nat} (h : ∀ m, n ≤ m → R m ts a) : Unbounded R ts a :=
  eventually_atTop.2 ⟨n, h⟩

/-- A derivation may use up some units of the bound. -/
theorem Unbounded.of_add {α : Type} {R : Nat → List Token → α → Prop} {ts : List Token} {a : α}
    (k : Nat) (h : ∀ᶠ n in atTop, R (n + k) ts a) : Unbounded R ts a := by
  rwa [Unbounded, ← map_add_atTop_eq_nat k, eventually_map]

/-! ## Spelled tokens -/

/-- A token that is read from its own lexeme. -/
def Spelled (t : Token) : Prop :=
  ∃ endLine, tokenize t.lexeme.toList = .ok ⟨[⟨t.kind, t.lexeme, 1⟩], endLine⟩

/-- A token of a kind. -/
def sample (kind : TokenKind) : Token :=
  match kind with
  | .identifier => ⟨kind, "x", 1⟩
  | .number => ⟨kind, "0", 1⟩
  | .string => ⟨kind, "\"\"", 1⟩
  | .char => ⟨kind, "'x'", 1⟩
  | _ => ⟨kind, spelling kind, 1⟩

theorem sample_kind (kind : TokenKind) : (sample kind).kind = kind := by
  cases kind <;> rfl

theorem spelled_sample {kind : TokenKind} (h : kind ≠ .endOfText) : Spelled (sample kind) := by
  refine ⟨1, ?_⟩
  cases kind
  case endOfText => exact absurd rfl h
  all_goals cbv

/-! ## Viable parsers -/

section Viable

variable {α β : Type} {R : List Token → β → Prop} {f : α → Parser β}

/-- Some spelled tokens are in a relation. -/
def Fillable (R : List Token → β → Prop) : Prop :=
  ∃ ts b, (∀ t ∈ ts, Spelled t) ∧ R ts b

theorem Fillable.nil {b : β} (h : R [] b) : Fillable R :=
  ⟨[], b, by simp, h⟩

/-- What can be filled after some spelled tokens can be filled. -/
theorem Fillable.append {ts : List Token} (hts : ∀ t ∈ ts, Spelled t)
    (h : Fillable fun us => R (ts ++ us)) : Fillable R := by
  obtain ⟨us, b, hus, hR⟩ := h
  exact ⟨ts ++ us, b, fun t ht => (List.mem_append.1 ht).elim (hts t) (hus t), hR⟩

theorem Fillable.cons {kind : TokenKind} (hend : kind ≠ .endOfText)
    (h : Fillable fun us => R (sample kind :: us)) : Fillable R := by
  have hspelled : ∀ t ∈ [sample kind], Spelled t := by simpa using spelled_sample hend
  exact .append hspelled h

theorem Fillable.imp {S : List Token → α → Prop} (h : Fillable S)
    (himp : ∀ ts a, S ts a → ∃ b, R ts b) : Fillable R := by
  obtain ⟨ts, a, hts, hS⟩ := h
  obtain ⟨b, hR⟩ := himp ts a hS
  exact ⟨ts, b, hts, hR⟩

/-- `p` accepts what is in `R` where `t` is the token under the cursor, and where it gets stuck,
other than for lack of depth, what it has moved over can be completed to something in `R`. -/
structure ViableFrom (t : Token) (p : Parser β) (R : List Token → β → Prop) : Prop where
  accepts : AcceptsFrom t p R
  stuck : ∀ line k ahead e c, (∀ u ∈ ahead, u.Lexical) → (Cursor.before line k ahead).current = t →
    p.run (.before line k ahead) = .error e c → e.fault ≠ .tooDeep →
    ∃ us rest, ahead = us ++ rest ∧ c = .before line (k + us.length) rest ∧
      Fillable fun ts => R (us ++ ts)

/-- `p` accepts what is in `R`, and where it gets stuck, other than for lack of depth, what it has
moved over can be completed to something in `R`. -/
structure Viable (p : Parser β) (R : List Token → β → Prop) : Prop where
  fillable : Fillable R
  anywhere : ∀ t, ViableFrom t p R

namespace Viable

theorem accepts {p : Parser β} (h : Viable p R) : Accepts p R :=
  fun t => (h.anywhere t).accepts

theorem pure {b : β} (h : R [] b) : Viable (pure b) R where
  fillable := .nil h
  anywhere t := ⟨Accepts.pure h t, fun _ _ _ _ _ _ _ hrun _ => by simp [EStateM.run_pure] at hrun⟩

theorem stop (fault : Fault) (h : Fillable R) : Viable (stop fault) R where
  fillable := h
  anywhere t := by
    refine ⟨Accepts.stop fault t, fun line k ahead e c _ _ hrun _ => ?_⟩
    obtain ⟨-, rfl⟩ := EStateM.Result.error.inj hrun
    exact ⟨[], ahead, rfl, rfl, h⟩

theorem mono {p : Parser β} {S : List Token → β → Prop} (h : Viable p R)
    (hRS : ∀ ts b, R ts b → S ts b) : Viable p S where
  fillable := h.fillable.imp fun ts b hR => ⟨b, hRS ts b hR⟩
  anywhere t := by
    refine ⟨h.accepts.mono hRS t, fun line k ahead e c hahead ht hrun hfault => ?_⟩
    obtain ⟨us, rest, ha, hc, hfill⟩ := (h.anywhere t).stuck line k ahead e c hahead ht hrun hfault
    exact ⟨us, rest, ha, hc, hfill.imp fun ts b hR => ⟨b, hRS _ b hR⟩⟩

/-- If the first action gets stuck, what it has read is completed, and then what the second one
would read after that is added. -/
theorem bind {p : Parser α} {Q : List Token → α → Prop} (hp : Viable p Q)
    (hf : ∀ ts a, Q ts a → Viable (f a) fun us => R (ts ++ us)) : Viable (p >>= f) R where
  fillable := by
    obtain ⟨ts, a, hts, hQ⟩ := hp.fillable
    exact .append hts (hf ts a hQ).fillable
  anywhere t := by
    refine ⟨hp.accepts.bind (fun ts a hQ => (hf ts a hQ).accepts) t, ?_⟩
    intro line k ahead e c hahead ht hrun hfault
    obtain hprun | ⟨a, d, hprun, hfrun⟩ := run_bind_error.1 hrun
    · obtain ⟨us, rest, ha, hc, ts, a, hts, hQ⟩ :=
        (hp.anywhere t).stuck line k ahead e c hahead ht hprun hfault
      refine ⟨us, rest, ha, hc, .append hts ?_⟩
      simpa [List.append_assoc] using (hf _ a hQ).fillable
    · obtain ⟨us, rest, rfl, rfl, hQ⟩ := hp.accepts t line k ahead a d hahead ht hprun
      have hrest := (List.forall_mem_append.1 hahead).2
      obtain ⟨vs, rest', rfl, rfl, hfill⟩ :=
        ((hf us a hQ).anywhere _).stuck line _ rest e c hrest rfl hfrun hfault
      refine ⟨us ++ vs, rest', (List.append_assoc ..).symm, by simp [Nat.add_assoc], ?_⟩
      simpa [List.append_assoc] using hfill

theorem bind_pure {p : Parser α} {Q : List Token → α → Prop} (hp : Viable p Q)
    (hf : ∀ ts a, Q ts a → ∃ b, f a = Pure.pure b ∧ R ts b) : Viable (p >>= f) R := by
  refine hp.bind fun ts a hQ => ?_
  obtain ⟨b, hb, hR⟩ := hf ts a hQ
  rw [hb]
  exact .pure (by rwa [List.append_nil])

theorem map {p : Parser α} {g : α → β} {Q : List Token → α → Prop} (hp : Viable p Q)
    (hg : ∀ ts a, Q ts a → R ts (g a)) : Viable (g <$> p) R := by
  rw [map_eq_pure_bind]
  exact hp.bind_pure fun ts a hQ => ⟨_, rfl, hg ts a hQ⟩

/-- A move that looks at the cursor and leaves it where it is. -/
theorem look {p : Parser α} (hp : ∀ c, ∃ a, p.run c = .ok a c) (hf : ∀ a, Viable (f a) R) :
    Viable (p >>= f) R where
  fillable := by
    obtain ⟨a, -⟩ := hp (.before 0 0 [])
    exact (hf a).fillable
  anywhere t := by
    refine ⟨Accepts.look hp (fun a => (hf a).accepts) t, ?_⟩
    intro line k ahead e c hahead ht hrun hfault
    obtain ⟨a, ha⟩ := hp (.before line k ahead)
    rw [run_bind_of_ok ha] at hrun
    exact ((hf a).anywhere t).stuck line k ahead e c hahead ht hrun hfault

theorem check {f : Bool → Parser β} (kind : TokenKind) (hf : ∀ b, Viable (f b) R) :
    Viable (check kind >>= f) R :=
  .look (fun c => ⟨_, run_check kind c⟩) hf

theorem atEnd {f : Bool → Parser β} (hf : ∀ b, Viable (f b) R) : Viable (atEnd >>= f) R :=
  .look (fun c => ⟨_, run_atEnd c⟩) hf

theorem tokensAhead {f : Nat → Parser β} (hf : ∀ n, Viable (f n) R) :
    Viable (tokensAhead >>= f) R :=
  .look (fun _ => ⟨_, rfl⟩) hf

theorem peek {f : Token → Parser β} (h : Fillable R) (hf : ∀ t, ViableFrom t (f t) R) :
    Viable (peek >>= f) R where
  fillable := h
  anywhere t := by
    refine ⟨Accepts.peek (fun t => (hf t).accepts) t, ?_⟩
    intro line k ahead e c hahead ht hrun hfault
    rw [run_bind_of_ok (run_peek _), ht] at hrun
    exact (hf t).stuck line k ahead e c hahead ht hrun hfault

end Viable

theorem ViableFrom.advance {f : Token → Parser β} {t : Token} (hend : t.kind ≠ .endOfText)
    (hf : t.Lexical → Viable (f t) fun ts => R (t :: ts)) : ViableFrom t (advance >>= f) R := by
  refine ⟨.advance hend fun h => (hf h).accepts, fun line k ahead e c hahead ht hrun hfault => ?_⟩
  obtain ⟨rest, rfl⟩ := Cursor.before_current ht hend
  obtain ⟨hlexical, hrest⟩ := List.forall_mem_cons.1 hahead
  rw [run_bind_of_ok (run_advance _), Cursor.next_before_cons] at hrun
  obtain ⟨us, rest', rfl, rfl, hfill⟩ :=
    ((hf hlexical).anywhere _).stuck line (k + 1) rest e c hrest rfl hrun hfault
  exact ⟨t :: us, rest', rfl, by rw [List.length_cons, Nat.add_right_comm, Nat.add_assoc], hfill⟩

namespace Viable

/-- If the token does not fit, nothing has been moved over, and there is something to read that
begins with a token that does. -/
theorem eat {f : Token → Parser β} {kind : TokenKind} {e : Expectation} (hend : kind ≠ .endOfText)
    (hf : ∀ t, t.kind = kind → Viable (f t) fun ts => R (t :: ts)) :
    Viable (eat kind e >>= f) R where
  fillable := .cons hend (hf _ (sample_kind kind)).fillable
  anywhere t := by
    refine ⟨Accepts.eat hend (fun t ht => (hf t ht).accepts) t, ?_⟩
    intro line k ahead e c hahead ht hrun hfault
    obtain heat | ⟨a, d, heat, hfrun⟩ := run_bind_error.1 hrun
    · rw [run_eat] at heat
      split at heat
      · cases heat
      · obtain ⟨-, rfl⟩ := EStateM.Result.error.inj heat
        exact ⟨[], ahead, rfl, rfl, .cons hend (hf _ (sample_kind kind)).fillable⟩
    · rw [run_eat, ht] at heat
      split at heat
      · next hk =>
        obtain ⟨rfl, rfl⟩ := EStateM.Result.ok.inj heat
        refine (ViableFrom.advance (hk ▸ hend) fun _ => hf t hk).stuck line k ahead e c hahead ht ?_
          hfault
        rw [run_bind_of_ok (run_advance _), ht]
        exact hfrun
      · cases heat

theorem accept {f : Option Token → Parser β} {kind : TokenKind} (hend : kind ≠ .endOfText)
    (hsome : ∀ t, t.kind = kind → Viable (f (some t)) fun ts => R (t :: ts))
    (hnone : Viable (f none) R) : Viable (accept? [kind] >>= f) R where
  fillable := hnone.fillable
  anywhere t := by
    refine ⟨Accepts.accept hend (fun t ht => (hsome t ht).accepts) hnone.accepts t, ?_⟩
    intro line k ahead e c hahead ht hrun hfault
    by_cases hk : t.kind = kind
    · have haccept : (accept? [kind]).run (.before line k ahead) =
          .ok (some t) (Cursor.before line k ahead).next := by rw [run_accept, ht, if_pos hk]
      rw [run_bind_of_ok haccept] at hrun
      refine (ViableFrom.advance (f := fun t => f (some t)) (hk ▸ hend) fun _ => hsome t hk).stuck
        line k ahead e c hahead ht ?_ hfault
      rw [run_bind_of_ok (run_advance _), ht]
      exact hrun
    · have haccept : (accept? [kind]).run (.before line k ahead) =
          .ok none (.before line k ahead) := by rw [run_accept, ht, if_neg hk]
      rw [run_bind_of_ok haccept] at hrun
      exact (hnone.anywhere t).stuck line k ahead e c hahead ht hrun hfault

end Viable

end Viable

/-! ## Expressions -/

theorem Unbounded.derives {level : Level} {n : Nat} {ts : List Token} {e : Expr}
    (h : Derives level n ts e) : Unbounded (Derives level) ts e :=
  .of_le fun _ hm => h.mono hm

theorem Unbounded.derives_binary {level : Level} {ts us : List Token} {left right : Expr}
    {operator : Token} {op : BinaryOp} (hleft : Unbounded (Derives level) ts left)
    (hop : level.operator? operator.kind = some op)
    (hright : Unbounded (Derives level.tighter) us right) :
    Unbounded (Derives level) (ts ++ operator :: us) (.binary left op right operator.line) := by
  refine .of_add 3 ?_
  filter_upwards [hleft, hright] with n hleft hright
  exact .binary (hleft.mono (Nat.le_add_right n 3)) (joins_iff.2 hop) (Level.over_of_operator hop)
    hright

/-- A primary expression is an expression of every level. -/
theorem Derives.exists_of_primary {n : Nat} {ts : List Token} {e : Expr}
    (h : Derives .primary n ts e) (level : Level) : ∃ m, Derives level m ts e := by
  have hsigned : Derives .signed (n + 2) ts e := .unsigned h
  have hproduct : Derives .product (n + 5) ts e := .operand .product hsigned
  have hsum : Derives .sum (n + 8) ts e := .operand .sum hproduct
  have hcomparison : Derives .comparison (n + 11) ts e := .operand .comparison hsum
  have hequality : Derives .equality (n + 14) ts e := .operand .equality hcomparison
  have hconjunction : Derives .conjunction (n + 17) ts e := .operand .conjunction hequality
  have hdisjunction : Derives .disjunction (n + 20) ts e := .operand .disjunction hconjunction
  cases level with
  | whole => exact ⟨_, .whole hdisjunction⟩
  | disjunction => exact ⟨_, hdisjunction⟩
  | conjunction => exact ⟨_, hconjunction⟩
  | equality => exact ⟨_, hequality⟩
  | comparison => exact ⟨_, hcomparison⟩
  | sum => exact ⟨_, hsum⟩
  | product => exact ⟨_, hproduct⟩
  | signed => exact ⟨_, hsigned⟩
  | primary => exact ⟨_, h⟩

/-- A number is an expression of every level. -/
theorem fillable_derives (level : Level) : Fillable (Unbounded (Derives level)) := by
  have hzero : Numeral "0".toList _ := .whole (by decide) (by simp [DigitChar])
  have hnumber : Derives .primary (0 + 2) [sample .number] _ := .number rfl hzero
  obtain ⟨n, h⟩ := hnumber.exists_of_primary level
  exact .cons (by decide) (.nil (.derives h))

theorem viable_foldOperands {level : Level} {operand : Parser Expr}
    (hoperand : Viable operand (Unbounded (Derives level.tighter))) (rounds : Nat) :
    ∀ ts left, Unbounded (Derives level) ts left →
      Viable (foldOperands level.operator? operand rounds left)
        fun us e => Unbounded (Derives level) (ts ++ us) e := by
  induction rounds with
  | zero => exact fun ts left h => .pure (by rwa [List.append_nil])
  | succ rounds ih =>
    intro ts left h
    have hdone : Unbounded (Derives level) (ts ++ []) left := by rwa [List.append_nil]
    refine .peek (.nil hdone) fun t => ?_
    rcases hop : level.operator? t.kind with _ | op
    · exact (Viable.pure hdone).anywhere t
    · refine .advance (kind_ne_endOfText_of_operator hop) fun _ =>
        hoperand.bind fun us right hright => ?_
      refine (ih _ _ (h.derives_binary hop hright)).mono fun vs e he => ?_
      rwa [List.append_assoc] at he

theorem viable_operands {level : Level} {operand : Parser Expr} (hlevel : level ∈ Level.binary)
    (hoperand : Viable operand (Unbounded (Derives level.tighter))) :
    Viable (operands level.operator? operand) (Unbounded (Derives level)) := by
  refine hoperand.bind fun ts left h => .tokensAhead fun rounds => ?_
  refine viable_foldOperands hoperand rounds ts left (.of_add 3 ?_)
  exact h.mono fun n h => .operand (Level.over_iff.2 ⟨hlevel, rfl⟩) h

theorem viable_moreElements {element : Parser Expr}
    (helement : Viable element (Unbounded (Derives .whole))) (rounds : Nat) :
    ∀ read, Viable (moreElements element rounds read)
      fun ts all => ∃ es, all = es.reverse ++ read ∧ Unbounded MoreElements ts es := by
  have hnil : Unbounded MoreElements [] [] := .of_le (n := 0) fun _ _ => .nil
  induction rounds with
  | zero => exact fun read => .pure ⟨[], rfl, hnil⟩
  | succ rounds ih =>
    intro read
    refine .accept (by decide) (fun comma hcomma => helement.bind fun ts e he => ?_)
      (.pure ⟨[], rfl, hnil⟩)
    refine (ih (e :: read)).mono ?_
    rintro us all ⟨es, rfl, hes⟩
    refine ⟨e :: es, by simp, ?_⟩
    filter_upwards [he, hes] with n he hes
    exact .cons hcomma he hes

theorem viable_elements {element : Parser Expr}
    (helement : Viable element (Unbounded (Derives .whole))) :
    Viable (elements element) (Unbounded Elements) := by
  refine .check _ fun b => ?_
  cases b with
  | true => exact .pure (.of_le (n := 0) fun _ _ => .none)
  | false =>
    refine helement.bind fun ts first hfirst => .tokensAhead fun rounds => ?_
    refine (viable_moreElements helement rounds [first]).bind ?_
    rintro us all ⟨es, rfl, hes⟩
    refine .pure ?_
    rw [List.reverse_append, List.reverse_reverse, List.append_nil]
    filter_upwards [hfirst, hes] with n hfirst hes
    exact .first hfirst hes

theorem viable_primary {inner : Parser Expr} (hinner : Viable inner (Unbounded (Derives .whole))) :
    Viable (primary inner) (Unbounded (Derives .primary)) := by
  refine .peek (fillable_derives _) fun t => ?_
  split
  · next ht =>
    exact .advance (by simp [ht]) fun h => .pure (.derives (.number (n := 0) ht (h.numeral ht)))
  · next ht =>
    exact .advance (by simp [ht]) fun h => .pure (.derives (.string (n := 0) ht (h.string ht)))
  · next ht =>
    exact .advance (by simp [ht]) fun h => .pure (.derives (.char (n := 0) ht (h.char ht)))
  · next ht =>
    refine .advance (by simp [ht]) fun _ =>
      .accept (by decide) (fun opening ho => ?_) (.pure (.derives (.variable (n := 0) ht)))
    exact hinner.bind fun ts index h => .eat (by decide) fun closing hc =>
      .pure (.of_add 2 (h.mono fun n h => .element ht ho h hc))
  · next ht =>
    refine .advance (by simp [ht]) fun _ =>
      hinner.bind fun ts e h => .eat (by decide) fun closing hc => ?_
    exact .pure (.of_add 2 (h.mono fun n h => .group ht h hc))
  · next ht =>
    refine .advance (by simp [ht]) fun _ =>
      (viable_elements hinner).bind fun ts es h => .eat (by decide) fun closing hc => ?_
    exact .pure (.of_add 2 (h.mono fun n h => .array ht h hc))
  · exact (Viable.stop _ (fillable_derives _)).anywhere t

theorem viable_withSign {signed unsigned : Parser Expr}
    (hsigned : Viable signed (Unbounded (Derives .signed)))
    (hunsigned : Viable unsigned (Unbounded (Derives .primary))) :
    Viable (withSign signed unsigned) (Unbounded (Derives .signed)) := by
  refine .peek (fillable_derives _) fun t => ?_
  rcases hop : signOperator? t.kind with _ | op
  · exact (hunsigned.mono fun _ _ h => .of_add 2 (h.mono fun n h => .unsigned h)).anywhere t
  · exact .advance (kind_ne_endOfText_of_sign hop) fun _ => hsigned.bind_pure fun ts e h =>
      ⟨_, rfl, .of_add 2 (h.mono fun n h => .sign (signs_iff.2 hop) h)⟩

/-- **The parser of a level is viable**, whatever its budget. -/
theorem viable_expression (n : Nat) :
    ∀ level, Viable (expression n level) (Unbounded (Derives level)) := by
  induction n using Nat.strong_induction_on with
  | _ n ih =>
    intro level
    fun_cases expression n level with
    | case1 budget =>
      exact (ih budget (by omega) .disjunction).mono fun _ _ h =>
        .of_add 2 (h.mono fun n h => .whole h)
    | case2 budget =>
      exact viable_withSign (ih budget (by omega) .signed) (ih budget (by omega) .primary)
    | case3 budget => exact viable_primary (ih budget (by omega) .whole)
    | case4 budget level h1 h2 h3 =>
      exact viable_operands (Level.mem_binary h1 h2 h3) (ih budget (by omega) level.tighter)
    | case5 => exact .stop _ (fillable_derives _)

/-! ## Parts of statements -/

section Parts

variable {expr : Parser Expr}

theorem viable_declaration (hexpr : Viable expr (Unbounded (Derives .whole))) :
    Viable (declaration expr) (Ended fun ts b => Unbounded Initializes ts (.declare b)) := by
  refine .eat (by decide) fun keyword hk => .eat (by decide) fun name hn =>
    .eat (by decide) fun equal he => hexpr.bind fun ts value h =>
    .eat (by decide) fun semicolon hs => .pure ?_
  exact ⟨keyword :: name :: equal :: ts, semicolon, rfl, hs,
    .of_add 2 (h.mono fun n h => .declare hk (.mk hn he h))⟩

theorem viable_assignmentTail (hexpr : Viable expr (Unbounded (Derives .whole))) {name : Token}
    (hn : name.kind = .identifier) :
    Viable (assignmentTail expr name) fun ts => Ended (Unbounded Binds) (name :: ts) := by
  refine .eat (by decide) fun equal he => hexpr.bind fun ts value h =>
    .eat (by decide) fun semicolon hs => .pure ?_
  exact ⟨name :: equal :: ts, semicolon, rfl, hs, h.mono fun n h => .mk hn he h⟩

theorem viable_bareAssignment (hexpr : Viable expr (Unbounded (Derives .whole))) :
    Viable (bareAssignment expr) (Unbounded Binds) :=
  .eat (by decide) fun _ hn => .eat (by decide) fun _ he =>
    hexpr.bind_pure fun _ _ h => ⟨_, rfl, h.mono fun _ h => .mk hn he h⟩

theorem viable_forInit {declared : Parser Binding}
    (hdeclared : Viable declared (Ended fun ts b => Unbounded Initializes ts (.declare b)))
    (hexpr : Viable expr (Unbounded (Derives .whole))) :
    Viable (forInit declared expr) (Ended (Optionally (Unbounded Initializes))) := by
  refine .check _ fun b => ?_
  cases b with
  | true =>
    refine hdeclared.bind_pure ?_
    rintro _ b ⟨us, semicolon, rfl, hs, h⟩
    exact ⟨_, rfl, us, semicolon, rfl, hs, .present h⟩
  | false =>
    refine .check _ fun b => ?_
    cases b with
    | true => exact .eat (by decide) fun semicolon hs => .pure ⟨[], semicolon, rfl, hs, .missing⟩
    | false =>
      refine .eat (by decide) fun name hn => (viable_assignmentTail hexpr hn).bind_pure ?_
      rintro ts b ⟨us, semicolon, hts, hs, h⟩
      exact ⟨_, rfl, us, semicolon, hts, hs, .present (h.mono fun n h => .assign h)⟩

theorem viable_forCondition (hexpr : Viable expr (Unbounded (Derives .whole))) :
    Viable (forCondition expr) (Ended (Optionally (Unbounded (Derives .whole)))) := by
  refine .check _ fun b => ?_
  cases b with
  | true =>
    exact .eat (by decide) fun semicolon hs => .pure ⟨[], semicolon, rfl, hs, .missing⟩
  | false =>
    have hcondition : Viable (some <$> expr) (Optionally (Unbounded (Derives .whole))) :=
      hexpr.map fun ts e h => .present h
    exact hcondition.bind fun ts condition h => .eat (by decide) fun semicolon hs =>
      .pure ⟨ts, semicolon, rfl, hs, h⟩

theorem viable_forIncrement {assigned : Parser Binding}
    (hassigned : Viable assigned (Unbounded Binds)) :
    Viable (forIncrement assigned) (Optionally (Unbounded Binds)) := by
  refine .check _ fun b => ?_
  cases b with
  | true => exact .pure .missing
  | false => exact hassigned.bind_pure fun ts b h => ⟨_, rfl, .present h⟩

end Parts

/-! ## Statements -/

/-- The statements of a body and the line of its opening brace. -/
def Body (n : Nat) (ts : List Token) (body : List Stmt × Int) : Prop :=
  Block n ts body.1 body.2

/-- What a loop over statements reads, after statements it has read already. -/
def MoreStatements (read : List Stmt) (ts : List Token) (all : List Stmt) : Prop :=
  ∃ ss, all = ss.reverse ++ read ∧ Unbounded Statements ts ss

theorem MoreStatements.nil (read : List Stmt) : MoreStatements read [] read :=
  ⟨[], rfl, .of_le (n := 0) fun _ _ => .nil⟩

section Loops

variable {statement : Parser Stmt}

/-- One round of a loop over statements. -/
theorem viable_nextStatement {loop : List Stmt → Parser (List Stmt)}
    (hstatement : Viable statement (Unbounded Statement))
    (hloop : ∀ read, Viable (loop read) (MoreStatements read)) (read : List Stmt) :
    Viable (statement >>= fun s => loop (s :: read)) (MoreStatements read) := by
  refine hstatement.bind fun ts s hs => (hloop (s :: read)).mono ?_
  rintro us all ⟨ss, rfl, hss⟩
  refine ⟨s :: ss, by simp, ?_⟩
  filter_upwards [hs, hss] with n hs hss
  exact .cons hs hss

theorem viable_statementsUntilBrace (hstatement : Viable statement (Unbounded Statement))
    (rounds : Nat) :
    ∀ read, Viable (statementsUntilBrace statement rounds read) (MoreStatements read) := by
  induction rounds with
  | zero => exact fun read => .pure (.nil read)
  | succ rounds ih =>
    intro read
    refine .check _ fun b => .atEnd fun b' => ?_
    split
    · exact .pure (.nil read)
    · exact viable_nextStatement hstatement ih read

theorem viable_statementsUntilEnd (hstatement : Viable statement (Unbounded Statement))
    (rounds : Nat) :
    ∀ read, Viable (statementsUntilEnd statement rounds read) (MoreStatements read) := by
  induction rounds with
  | zero => exact fun read => .pure (.nil read)
  | succ rounds ih =>
    intro read
    refine .atEnd fun b => ?_
    split
    · exact .pure (.nil read)
    · exact viable_nextStatement hstatement ih read

theorem viable_braces (hstatement : Viable statement (Unbounded Statement)) :
    Viable (braces statement) (Unbounded Body) := by
  refine .eat (by decide) fun opening ho => .tokensAhead fun rounds => ?_
  refine (viable_statementsUntilBrace hstatement rounds []).bind ?_
  rintro ts all ⟨ss, rfl, hss⟩
  refine .eat (by decide) fun closing hc => .pure ?_
  rw [List.append_nil, List.reverse_reverse]
  exact hss.mono fun n hss => .braces ho hss hc

end Loops

section Forms

variable {expr : Parser Expr} {body : Parser (List Stmt × Int)}

theorem viable_assignment (hexpr : Viable expr (Unbounded (Derives .whole))) :
    Viable (assignment expr) (Unbounded Statement) := by
  refine .eat (by decide) fun name hn => .accept (by decide) (fun opening ho => ?_) ?_
  · refine hexpr.bind fun ts index hi => .eat (by decide) fun closing hc =>
      .eat (by decide) fun equal he => hexpr.bind fun us value hv =>
      .eat (by decide) fun semicolon hs => .pure (.of_add 4 ?_)
    filter_upwards [hi, hv] with n hi hv
    exact .assignElement hn ho hi hc he hv hs
  · refine (viable_assignmentTail hexpr hn).bind_pure ?_
    rintro ts b ⟨us, semicolon, hts, hs, h⟩
    exact ⟨_, rfl, hts ▸ .of_add 4 (h.mono fun n h => .assign h hs)⟩

theorem viable_output (hexpr : Viable expr (Unbounded (Derives .whole))) :
    Viable (output expr) (Unbounded Statement) :=
  .eat (by decide) fun _ hk => .eat (by decide) fun _ ho => hexpr.bind fun _ _ h =>
    .eat (by decide) fun _ hc => .eat (by decide) fun _ hs =>
    .pure (.of_add 4 (h.mono fun _ h => .print hk ho h hc hs))

theorem viable_conditional (hexpr : Viable expr (Unbounded (Derives .whole)))
    (hbody : Viable body (Unbounded Body)) :
    Viable (conditional expr body) (Unbounded Statement) := by
  refine .eat (by decide) fun keyword hk => .eat (by decide) fun opening ho =>
    hexpr.bind fun ts condition h => .eat (by decide) fun closing hc => hbody.bind ?_
  rintro us ⟨taken, takenLine⟩ ht
  refine .accept (by decide) (fun separator hs => hbody.bind_pure ?_) (.pure (.of_add 6 ?_))
  · rintro vs ⟨otherwise, otherwiseLine⟩ he
    refine ⟨_, rfl, .of_add 6 ?_⟩
    filter_upwards [h, ht, he] with n h ht he
    exact .ifElse hk ho (h.mono (Nat.le_add_right n 2)) hc ht hs he
  · filter_upwards [h, ht] with n h ht
    rw [List.append_nil]
    exact .ifThen hk ho (h.mono (Nat.le_add_right n 2)) hc ht

theorem viable_whileLoop (hexpr : Viable expr (Unbounded (Derives .whole)))
    (hbody : Viable body (Unbounded Body)) :
    Viable (whileLoop expr body) (Unbounded Statement) := by
  refine .eat (by decide) fun keyword hk => .eat (by decide) fun opening ho =>
    hexpr.bind fun ts condition h => .eat (by decide) fun closing hc => hbody.bind_pure ?_
  rintro us ⟨statements, bodyLine⟩ hb
  refine ⟨_, rfl, .of_add 6 ?_⟩
  filter_upwards [h, hb] with n h hb
  exact .whileLoop hk ho (h.mono (Nat.le_add_right n 2)) hc hb

/-- A part that may be missing is unbounded if it is whenever it is there. -/
theorem Unbounded.optionally {α : Type} {R : Nat → List Token → α → Prop} {ts : List Token}
    {a : Option α} (h : Optionally (Unbounded R) ts a) :
    Unbounded (fun n => Optionally (R n)) ts a := by
  cases h with
  | missing => exact .of_le (n := 0) fun _ _ => .missing
  | present h => exact h.mono fun n h => .present h

theorem viable_forLoop {declared assigned : Parser Binding}
    (hdeclared : Viable declared (Ended fun ts b => Unbounded Initializes ts (.declare b)))
    (hassigned : Viable assigned (Unbounded Binds))
    (hexpr : Viable expr (Unbounded (Derives .whole))) (hbody : Viable body (Unbounded Body)) :
    Viable (forLoop declared assigned expr body) (Unbounded Statement) := by
  refine .eat (by decide) fun keyword hk => .eat (by decide) fun opening ho =>
    (viable_forInit hdeclared hexpr).bind ?_
  rintro _ init ⟨ts, semicolon, rfl, hs, hinit⟩
  refine (viable_forCondition hexpr).bind ?_
  rintro _ condition ⟨us, semicolon', rfl, hs', hcondition⟩
  refine (viable_forIncrement hassigned).bind fun vs increment hincrement =>
    .eat (by decide) fun closing hc => hbody.bind_pure ?_
  rintro ws ⟨statements, bodyLine⟩ hb
  refine ⟨_, rfl, .of_add 6 ?_⟩
  simp only [List.append_assoc, List.cons_append, List.nil_append]
  filter_upwards [Unbounded.optionally hinit, Unbounded.optionally hcondition,
    Unbounded.optionally hincrement, hb] with n hinit hcondition hincrement hb
  exact .forLoop hk ho (hinit.imp fun _ _ h => h.mono (Nat.le_add_right n 2)) hs
    (hcondition.imp fun _ _ h => h.mono (Nat.le_add_right n 2)) hs'
    (hincrement.imp fun _ _ h => h.mono (Nat.le_add_right n 1)) hc hb

end Forms

theorem fillable_statement : Fillable (Unbounded Statement) :=
  (viable_output (viable_expression 0 .whole)).fillable

theorem fillable_body : Fillable (Unbounded Body) :=
  (viable_braces (.stop .tooDeep fillable_statement)).fillable

theorem viable_innerDeclaration (n : Nat) :
    Viable (innerDeclaration n) (Ended fun ts b => Unbounded Initializes ts (.declare b)) := by
  have h (budget : Nat) := viable_declaration (viable_expression budget .whole)
  rcases n with _ | _ | n
  · exact .stop _ (h 0).fillable
  · exact .stop _ (h 0).fillable
  · exact h n

theorem viable_innerAssignment (n : Nat) : Viable (innerAssignment n) (Unbounded Binds) := by
  have h (budget : Nat) := viable_bareAssignment (viable_expression budget .whole)
  rcases n with _ | n
  · exact .stop _ (h 0).fillable
  · exact h n

/-- **The parser of statements is viable**, whatever its budget. -/
theorem viable_statement (n : Nat) : ∀ form, Viable (statement n form) (Unbounded Statement) := by
  induction n using Nat.strong_induction_on with
  | _ n ih =>
    intro form
    rcases n with _ | _ | n
    · exact .stop _ fillable_statement
    · exact .stop _ fillable_statement
    have hexpr := viable_expression n .whole
    have hbody : Viable (bodyParser n) (Unbounded Body) := by
      rcases n with _ | _ | m
      · exact .stop _ fillable_body
      · exact .stop _ fillable_body
      · exact viable_braces (ih m (by omega) .any)
    cases form with
    | any =>
      rw [statement_any]
      exact .peek fillable_statement fun t => (ih n (by omega) _).anywhere t
    | block =>
      rw [statement_block]
      refine (viable_braces (ih n (by omega) .any)).bind_pure fun ts b h => ⟨_, rfl, ?_⟩
      exact .of_add 4 (h.mono fun n h => .block h)
    | declaration =>
      rw [statement_declaration]
      refine (viable_declaration hexpr).map ?_
      rintro _ b ⟨us, semicolon, rfl, hs, h⟩
      refine .of_add 4 (h.mono ?_)
      rintro _ ⟨hk, h⟩
      exact .declare hk (h.mono (Nat.le_add_right _ 2)) hs
    | assignment => exact statement_assignment n ▸ viable_assignment hexpr
    | output => exact statement_output n ▸ viable_output hexpr
    | conditional => exact statement_conditional n ▸ viable_conditional hexpr hbody
    | whileLoop => exact statement_whileLoop n ▸ viable_whileLoop hexpr hbody
    | forLoop =>
      exact statement_forLoop n ▸
        viable_forLoop (viable_innerDeclaration n) (viable_innerAssignment n) hexpr hbody

/-- **Programs are viable.** -/
theorem viable_programWithin (n : Nat) : Viable (programWithin n) (Unbounded Statements) := by
  refine .tokensAhead fun rounds =>
    (viable_statementsUntilEnd (viable_statement n .any) rounds []).bind_pure ?_
  rintro ts all ⟨ss, rfl, hss⟩
  exact ⟨_, rfl, by simpa using hss⟩

end Scriptlet.Grammar
