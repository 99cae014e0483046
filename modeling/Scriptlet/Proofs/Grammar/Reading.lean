import Mathlib
import Scriptlet.Grammar.Statement
import Scriptlet.Proofs.Token.LongestMatch

/-!
# What a parser reads

Two judgements about parsers, one for each direction of the correspondence with a grammar, and one
rule of each for every elementary move of the cursor.  The rules run backwards along a `do` block:
what is wanted of the whole block becomes what is wanted of the rest after its first move.

## What is here

* `Cursor.before line k ahead` — the cursor after `k` tokens of a text that ends on a line.  All
  cursors of a run have this form, and the end of the text never counts as a token read.
* `kindAhead ts` — the kind of the token a parser sees before the tokens `ts`.
* `Accepts p R` — whatever `p` returns before the tokens of a text, it has moved over tokens that
  `R` relates to it.
* `AcceptsFrom t p R` — the same where `t` is the token under the cursor.
* `Reads line p ts rest a` — before the tokens `ts ++ rest`, `p` moves over `ts` and returns `a`.
-/

set_option autoImplicit false
namespace Scriptlet.Grammar

/-! ## Cursors over a text -/

/-- The cursor after `k` tokens, before the tokens `ahead` of a text that ends on a line. -/
def Cursor.before (line : Int) (k : Nat) (ahead : List Token) : Cursor :=
  ⟨k + ahead.length, k, ahead, ⟨.endOfText, "", line⟩⟩

/-- The kind of the token under the cursor before some tokens. -/
def kindAhead (ahead : List Token) : TokenKind :=
  (ahead.head?.map Token.kind).getD .endOfText

@[simp] theorem kindAhead_nil : kindAhead [] = .endOfText := rfl

@[simp] theorem kindAhead_cons (t : Token) (ts : List Token) : kindAhead (t :: ts) = t.kind := rfl

namespace Cursor

theorem start_eq_before (s : TokenStream) : start s = before s.endLine 0 s.tokens := by
  simp [start, before, TokenStream.endToken]

theorem current_before (line : Int) (k : Nat) (ahead : List Token) :
    (before line k ahead).current.kind = kindAhead ahead := by
  cases ahead <;> rfl

theorem next_before_cons (line : Int) (k : Nat) (t : Token) (ts : List Token) :
    (before line k (t :: ts)).next = before line (k + 1) ts := by
  simp only [before, next, List.length_cons]
  congr 1
  omega

/-- A token under the cursor that is not the end lies ahead. -/
theorem before_current {line : Int} {k : Nat} {ahead : List Token} {t : Token}
    (ht : (before line k ahead).current = t) (hend : t.kind ≠ .endOfText) :
    ∃ rest, ahead = t :: rest := by
  cases ahead with
  | nil => exact absurd (congrArg Token.kind ht).symm hend
  | cons u rest =>
    obtain rfl : u = t := ht
    exact ⟨rest, rfl⟩

end Cursor

/-! ## Runs of the elementary moves -/

section Runs

variable {α β : Type}

/-- A block of two actions returns what the second one returns after the first. -/
theorem run_bind_ok {p : Parser α} {f : α → Parser β} {c c' : Cursor} {b : β} :
    (p >>= f).run c = .ok b c' ↔ ∃ a d, p.run c = .ok a d ∧ (f a).run d = .ok b c' := by
  rw [EStateM.run_bind]
  cases p.run c with
  | ok a d => simp
  | error e d => simp

theorem run_bind_of_ok {p : Parser α} {f : α → Parser β} {c d : Cursor} {a : α}
    (h : p.run c = .ok a d) : (p >>= f).run c = (f a).run d := by
  rw [EStateM.run_bind, h]

theorem run_peek (c : Cursor) : peek.run c = .ok c.current c := rfl

theorem run_advance (c : Cursor) : advance.run c = .ok c.current c.next := rfl

theorem run_check (kind : TokenKind) (c : Cursor) :
    (check kind).run c = .ok (decide (c.current.kind = kind)) c := rfl

theorem run_atEnd (c : Cursor) : atEnd.run c = .ok c.atEnd c := rfl

theorem run_stop (fault : Fault) (c : Cursor) :
    (stop fault : Parser α).run c = .error ⟨fault, c.current⟩ c := rfl

theorem run_tokensAhead (line : Int) (k : Nat) (ahead : List Token) :
    tokensAhead.run (.before line k ahead) = .ok ahead.length (.before line k ahead) := by
  show EStateM.Result.ok (k + ahead.length - k) (Cursor.before line k ahead) = _
  rw [Nat.add_sub_cancel_left]

theorem run_eat (kind : TokenKind) (e : Expectation) (c : Cursor) :
    (eat kind e).run c =
      if c.current.kind = kind then .ok c.current c.next
      else .error ⟨.unmet e, c.current⟩ c := by
  rw [eat, run_bind_of_ok (run_peek c)]
  split
  · exact run_advance c
  · exact run_stop _ c

theorem run_accept (kind : TokenKind) (c : Cursor) :
    (accept? [kind]).run c =
      if c.current.kind = kind then .ok (some c.current) c.next else .ok none c := by
  rw [accept?, run_bind_of_ok (run_peek c)]
  by_cases h : c.current.kind = kind
  · rw [if_pos (by simp [h]), if_pos h]
    rfl
  · rw [if_neg (by simpa using h), if_neg h]
    rfl

end Runs

/-! ## What a parser accepts -/

section Accepts

variable {α β : Type} {R : List Token → β → Prop} {f : α → Parser β}

/-- Whatever `p` returns before tokens of a text, with the token `t` under the cursor, it has moved
over tokens that `R` relates to it. -/
def AcceptsFrom (t : Token) (p : Parser β) (R : List Token → β → Prop) : Prop :=
  ∀ line k ahead b c, (∀ u ∈ ahead, u.Lexical) → (Cursor.before line k ahead).current = t →
    p.run (.before line k ahead) = .ok b c →
    ∃ ts rest, ahead = ts ++ rest ∧ c = .before line (k + ts.length) rest ∧ R ts b

/-- Whatever `p` returns, it has moved over tokens that `R` relates to it. -/
def Accepts (p : Parser β) (R : List Token → β → Prop) : Prop :=
  ∀ t, AcceptsFrom t p R

theorem Accepts.mono {p : Parser β} {S : List Token → β → Prop} (h : Accepts p R)
    (hRS : ∀ ts b, R ts b → S ts b) : Accepts p S := by
  intro t line k ahead b c hahead ht hrun
  obtain ⟨ts, rest, ha, hc, hR⟩ := h t line k ahead b c hahead ht hrun
  exact ⟨ts, rest, ha, hc, hRS ts b hR⟩

theorem Accepts.pure {b : β} (h : R [] b) : Accepts (pure b) R := by
  intro t line k ahead b' c _ _ hrun
  obtain ⟨rfl, rfl⟩ : b = b' ∧ Cursor.before line k ahead = c := by
    simpa [EStateM.run_pure] using hrun
  exact ⟨[], ahead, rfl, rfl, h⟩

theorem Accepts.stop (fault : Fault) : Accepts (stop fault) R := by
  intro t line k ahead b c _ _ hrun
  rw [run_stop] at hrun
  cases hrun

theorem Accepts.bind {p : Parser α} {Q : List Token → α → Prop} (hp : Accepts p Q)
    (hf : ∀ ts a, Q ts a → Accepts (f a) fun us => R (ts ++ us)) : Accepts (p >>= f) R := by
  intro t line k ahead b c hahead ht hrun
  obtain ⟨a, d, hprun, hfrun⟩ := run_bind_ok.1 hrun
  obtain ⟨ts, rest, rfl, rfl, hQ⟩ := hp t line k ahead a d hahead ht hprun
  have hrest := (List.forall_mem_append.1 hahead).2
  obtain ⟨us, rest', rfl, rfl, hR⟩ := hf ts a hQ _ line _ rest b c hrest rfl hfrun
  exact ⟨ts ++ us, rest', (List.append_assoc ..).symm, by simp [Nat.add_assoc], hR⟩

/-- A last move, after which the block only returns something. -/
theorem Accepts.bind_pure {p : Parser α} {Q : List Token → α → Prop} (hp : Accepts p Q)
    (hf : ∀ ts a, Q ts a → ∃ b, f a = Pure.pure b ∧ R ts b) : Accepts (p >>= f) R := by
  refine hp.bind fun ts a hQ => ?_
  obtain ⟨b, hb, hR⟩ := hf ts a hQ
  rw [hb]
  exact .pure (by rwa [List.append_nil])

theorem Accepts.map {p : Parser α} {g : α → β} {Q : List Token → α → Prop} (hp : Accepts p Q)
    (hg : ∀ ts a, Q ts a → R ts (g a)) : Accepts (g <$> p) R := by
  rw [map_eq_pure_bind]
  exact hp.bind_pure fun ts a hQ => ⟨_, rfl, hg ts a hQ⟩

/-- A move that looks at the cursor and leaves it where it is. -/
theorem Accepts.look {p : Parser α} (hp : ∀ c, ∃ a, p.run c = .ok a c)
    (hf : ∀ a, Accepts (f a) R) : Accepts (p >>= f) R := by
  intro t line k ahead b c hahead ht hrun
  obtain ⟨a, ha⟩ := hp (.before line k ahead)
  rw [run_bind_of_ok ha] at hrun
  exact hf a t line k ahead b c hahead ht hrun

theorem Accepts.check {f : Bool → Parser β} (kind : TokenKind) (hf : ∀ b, Accepts (f b) R) :
    Accepts (check kind >>= f) R :=
  .look (fun c => ⟨_, run_check kind c⟩) hf

theorem Accepts.atEnd {f : Bool → Parser β} (hf : ∀ b, Accepts (f b) R) :
    Accepts (atEnd >>= f) R :=
  .look (fun c => ⟨_, run_atEnd c⟩) hf

theorem Accepts.tokensAhead {f : Nat → Parser β} (hf : ∀ n, Accepts (f n) R) :
    Accepts (tokensAhead >>= f) R :=
  .look (fun _ => ⟨_, rfl⟩) hf

theorem Accepts.peek {f : Token → Parser β} (hf : ∀ t, AcceptsFrom t (f t) R) :
    Accepts (peek >>= f) R := by
  intro t line k ahead b c hahead ht hrun
  rw [run_bind_of_ok (run_peek _), ht] at hrun
  exact hf t line k ahead b c hahead ht hrun

theorem AcceptsFrom.advance {f : Token → Parser β} {t : Token} (hend : t.kind ≠ .endOfText)
    (hf : t.Lexical → Accepts (f t) fun ts => R (t :: ts)) :
    AcceptsFrom t (advance >>= f) R := by
  intro line k ahead b c hahead ht hrun
  obtain ⟨rest, rfl⟩ := Cursor.before_current ht hend
  obtain ⟨hlexical, hrest⟩ := List.forall_mem_cons.1 hahead
  rw [run_bind_of_ok (run_advance _), Cursor.next_before_cons] at hrun
  obtain ⟨ts, rest', rfl, rfl, hR⟩ := hf hlexical _ line (k + 1) rest b c hrest rfl hrun
  exact ⟨t :: ts, rest', rfl, by rw [List.length_cons, Nat.add_right_comm, Nat.add_assoc], hR⟩

theorem Accepts.eat {f : Token → Parser β} {kind : TokenKind} {e : Expectation}
    (hend : kind ≠ .endOfText)
    (hf : ∀ t, t.kind = kind → Accepts (f t) fun ts => R (t :: ts)) :
    Accepts (eat kind e >>= f) R := by
  intro t line k ahead b c hahead ht hrun
  obtain ⟨a, d, heat, hfrun⟩ := run_bind_ok.1 hrun
  rw [run_eat, ht] at heat
  split at heat
  · next hk =>
    obtain ⟨rfl, rfl⟩ : t = a ∧ (Cursor.before line k ahead).next = d := by simpa using heat
    refine AcceptsFrom.advance (hk ▸ hend) (fun _ => hf t hk) line k ahead b c hahead ht ?_
    rw [run_bind_of_ok (run_advance _), ht]
    exact hfrun
  · cases heat

theorem Accepts.accept {f : Option Token → Parser β} {kind : TokenKind}
    (hend : kind ≠ .endOfText)
    (hsome : ∀ t, t.kind = kind → Accepts (f (some t)) fun ts => R (t :: ts))
    (hnone : Accepts (f none) R) : Accepts (accept? [kind] >>= f) R := by
  intro t line k ahead b c hahead ht hrun
  obtain ⟨a, d, hacc, hfrun⟩ := run_bind_ok.1 hrun
  rw [run_accept, ht] at hacc
  split at hacc
  · next hk =>
    obtain ⟨rfl, rfl⟩ : some t = a ∧ (Cursor.before line k ahead).next = d := by simpa using hacc
    refine AcceptsFrom.advance (f := fun t => f (some t)) (hk ▸ hend) (fun _ => hsome t hk)
      line k ahead b c hahead ht ?_
    rw [run_bind_of_ok (run_advance _), ht]
    exact hfrun
  · obtain ⟨rfl, rfl⟩ : none = a ∧ Cursor.before line k ahead = d := by simpa using hacc
    exact hnone t line k ahead b c hahead ht hfrun

end Accepts

/-! ## What a parser reads -/

section Reads

variable {α β : Type} {line : Int} {ts us rest : List Token} {b : β} {f : α → Parser β}

/-- Before the tokens `ts ++ rest`, wherever that is, `p` moves over `ts` and returns `b`. -/
def Reads (line : Int) (p : Parser β) (ts rest : List Token) (b : β) : Prop :=
  ∀ k, p.run (.before line k (ts ++ rest)) = .ok b (.before line (k + ts.length) rest)

theorem Reads.pure : Reads line (pure b) [] rest b :=
  fun _ => rfl

theorem Reads.bind {p : Parser α} {a : α} (hp : Reads line p ts (us ++ rest) a)
    (hf : Reads line (f a) us rest b) : Reads line (p >>= f) (ts ++ us) rest b := by
  intro k
  have h := hp k
  rw [← List.append_assoc] at h
  rw [run_bind_of_ok h, hf, List.length_append, Nat.add_assoc]

/-- The last tokens read are those of the first action. -/
theorem Reads.bind_nil {p : Parser α} {a : α} (hp : Reads line p ts rest a)
    (hf : Reads line (f a) [] rest b) : Reads line (p >>= f) ts rest b := by
  have h : Reads line (p >>= f) (ts ++ []) rest b := Reads.bind hp hf
  rwa [List.append_nil] at h

theorem Reads.bind_pure {p : Parser α} {a : α} {g : α → β} (hp : Reads line p ts rest a) :
    Reads line (p >>= fun a => Pure.pure (g a)) ts rest (g a) :=
  hp.bind_nil .pure

theorem Reads.map {p : Parser α} {a : α} {g : α → β} (hp : Reads line p ts rest a) :
    Reads line (g <$> p) ts rest (g a) := by
  rw [map_eq_pure_bind]
  exact hp.bind_pure

theorem Reads.tokensAhead {f : Nat → Parser β}
    (hf : Reads line (f (ts ++ rest).length) ts rest b) :
    Reads line (tokensAhead >>= f) ts rest b := by
  intro k
  rw [run_bind_of_ok (run_tokensAhead _ _ _), hf]

theorem Reads.check_true {f : Bool → Parser β} {kind : TokenKind}
    (hkind : kindAhead (ts ++ rest) = kind) (hf : Reads line (f true) ts rest b) :
    Reads line (check kind >>= f) ts rest b := by
  intro k
  rw [run_bind_of_ok (run_check _ _), Cursor.current_before, decide_eq_true hkind, hf]

theorem Reads.check_false {f : Bool → Parser β} {kind : TokenKind}
    (hkind : kindAhead (ts ++ rest) ≠ kind) (hf : Reads line (f false) ts rest b) :
    Reads line (check kind >>= f) ts rest b := by
  intro k
  rw [run_bind_of_ok (run_check _ _), Cursor.current_before, decide_eq_false hkind, hf]

theorem Reads.atEnd {f : Bool → Parser β} (hf : Reads line (f (ts ++ rest).isEmpty) ts rest b) :
    Reads line (atEnd >>= f) ts rest b := by
  intro k
  rw [run_bind_of_ok (run_atEnd _)]
  exact hf k

theorem Reads.peek {f : Token → Parser β} {t : Token} (hf : Reads line (f t) (t :: ts) rest b) :
    Reads line (peek >>= f) (t :: ts) rest b := by
  intro k
  rw [run_bind_of_ok (run_peek _)]
  exact hf k

/-- A move over the token under the cursor. -/
theorem Reads.step {p : Parser α} {a : α} {t : Token}
    (hp : ∀ c, c.current = t → p.run c = .ok a c.next) (hf : Reads line (f a) ts rest b) :
    Reads line (p >>= f) (t :: ts) rest b := by
  intro k
  rw [run_bind_of_ok (hp _ rfl), List.cons_append, Cursor.next_before_cons, hf,
    List.length_cons, Nat.add_right_comm, Nat.add_assoc]

theorem Reads.advance {f : Token → Parser β} {t : Token} (hf : Reads line (f t) ts rest b) :
    Reads line (advance >>= f) (t :: ts) rest b :=
  .step (fun c hc => hc ▸ run_advance c) hf

theorem Reads.eat {f : Token → Parser β} {t : Token} {kind : TokenKind} {e : Expectation}
    (ht : t.kind = kind) (hf : Reads line (f t) ts rest b) :
    Reads line (eat kind e >>= f) (t :: ts) rest b := by
  refine .step (fun c hc => ?_) hf
  rw [run_eat, hc, if_pos ht]

theorem Reads.accept_some {f : Option Token → Parser β} {t : Token} {kind : TokenKind}
    (ht : t.kind = kind) (hf : Reads line (f (some t)) ts rest b) :
    Reads line (accept? [kind] >>= f) (t :: ts) rest b := by
  refine .step (fun c hc => ?_) hf
  rw [run_accept, hc, if_pos ht]

theorem Reads.accept_none {f : Option Token → Parser β} {kind : TokenKind}
    (hkind : kindAhead (ts ++ rest) ≠ kind) (hf : Reads line (f none) ts rest b) :
    Reads line (accept? [kind] >>= f) ts rest b := by
  intro k
  have hrun : (accept? [kind]).run (.before line k (ts ++ rest)) =
      .ok none (.before line k (ts ++ rest)) := by
    rw [run_accept, Cursor.current_before, if_neg hkind]
  rw [run_bind_of_ok hrun, hf]

end Reads

end Scriptlet.Grammar
