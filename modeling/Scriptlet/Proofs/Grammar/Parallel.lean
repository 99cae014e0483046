import Mathlib
import Scriptlet.Proofs.Grammar.Reading
import Scriptlet.Proofs.Unlined

/-!
# Two readings side by side

A parser looks at no token beyond the one under its cursor, and at no line.  So what it has done
when it comes to rest depends only on the kinds and lexemes of the tokens up to that one.  To say
this, a run before some tokens is compared with a run before others that are the same up to a place,
and all that is claimed is about runs that end no later than there.

The two runs may be of different parsers, for they may have different nesting budgets; then running
out of the budget is not compared.

## What is here

* `Shared n ts us` — the tokens numbered 0 to `n` are the same on both sides, but for their lines.
* `Moves p` — wherever `p` stops, it has moved forward over some tokens, and an error is about the
  token under the cursor.
* `Comparison` — up to which place two texts are compared, and which faults.
* `Comparison.Follows view p q k ts us` — what `p` does after `k` tokens and before `ts`, `q` does
  before `us`; results are compared as `view` sees them.
* `Comparison.Parallel view p q` — the same wherever the tokens ahead are shared;
  `Comparison.Advancing view p q` — and `p` takes a token whenever it returns.
-/

set_option autoImplicit false
namespace Scriptlet.Grammar

/-! ## Shared tokens -/

/-- Two lists of tokens are the same but for their lines, in the places 0 to `n`; if one ends
before, so does the other. -/
def Shared : Nat → List Token → List Token → Prop
  | _, [], [] => True
  | 0, t :: _, u :: _ => t.unlined = u.unlined
  | n + 1, t :: ts, u :: us => t.unlined = u.unlined ∧ Shared n ts us
  | _, _, _ => False

namespace Shared

variable {n : Nat} {t u : Token} {ts us : List Token}

theorem head (h : Shared n (t :: ts) (u :: us)) : t.unlined = u.unlined := by
  cases n with
  | zero => exact h
  | succ n => exact h.1

theorem tail (h : Shared (n + 1) (t :: ts) (u :: us)) : Shared n ts us :=
  h.2

/-- Either both texts end here, or both have a token here. -/
theorem cases (h : Shared n ts us) :
    ts = [] ∧ us = [] ∨
      ∃ t u ts' us', ts = t :: ts' ∧ us = u :: us' ∧ t.unlined = u.unlined := by
  rcases ts with _ | ⟨t, ts⟩ <;> rcases us with _ | ⟨u, us⟩
  · exact .inl ⟨rfl, rfl⟩
  · cases n <;> cases h
  · cases n <;> cases h
  · exact .inr ⟨t, u, ts, us, rfl, rfl, h.head⟩

theorem drop (h : Shared n ts us) {m : Nat} (hm : m ≤ n) :
    Shared (n - m) (ts.drop m) (us.drop m) := by
  induction m generalizing n ts us with
  | zero => simpa using h
  | succ m ih =>
    obtain ⟨n, rfl⟩ : ∃ i, n = i + 1 := Nat.exists_eq_add_of_le' (by omega)
    obtain ⟨rfl, rfl⟩ | ⟨t, u, ts, us, rfl, rfl, -⟩ := h.cases
    · rw [List.drop_nil]
      cases n + 1 - (m + 1) <;> trivial
    · simpa using ih h.tail (Nat.le_of_succ_le_succ hm)

/-- What is shared up to a limit is shared after any move within the limit. -/
theorem sub_drop {limit k m : Nat} (h : Shared (limit - k) ts us) (hm : k + m ≤ limit) :
    Shared (limit - (k + m)) (ts.drop m) (us.drop m) := by
  rw [← Nat.sub_sub]
  exact h.drop (Nat.le_sub_of_add_le' hm)

/-- The tokens under the cursors are the same. -/
theorem current (h : Shared n ts us) (line line' : Int) (k : Nat) :
    (Cursor.before line k ts).current.unlined = (Cursor.before line' k us).current.unlined := by
  obtain ⟨rfl, rfl⟩ | ⟨t, u, ts, us, rfl, rfl, ht⟩ := h.cases
  · rfl
  · exact ht

theorem of_map_eq (h : ts.map Token.unlined = us.map Token.unlined) : Shared n ts us := by
  induction ts generalizing n us with
  | nil =>
    obtain rfl : us = [] := by simpa using h.symm
    cases n <;> trivial
  | cons t ts ih =>
    obtain ⟨u, us, rfl, ht, hrest⟩ := List.map_eq_cons_iff.1 h.symm
    cases n with
    | zero => exact ht.symm
    | succ n => exact ⟨ht.symm, ih hrest.symm⟩

end Shared

/-! ## Forward moves -/

section Moves

variable {α β : Type}

/-- A block of two actions stops where its first action stops, or the second one after it. -/
theorem run_bind_error {p : Parser α} {f : α → Parser β} {c c' : Cursor} {e : Error} :
    (p >>= f).run c = .error e c' ↔
      p.run c = .error e c' ∨ ∃ a d, p.run c = .ok a d ∧ (f a).run d = .error e c' := by
  rw [EStateM.run_bind]
  cases p.run c with
  | ok a d => simp
  | error e d => simp

/-- Moving over `i` tokens and then over `j` is moving over all of them. -/
theorem Cursor.before_drop_add (line : Int) (k i j : Nat) (ts : List Token) :
    before line (k + (i + j)) (ts.drop (i + j)) = before line (k + i + j) ((ts.drop i).drop j) := by
  rw [List.drop_drop, Nat.add_assoc]

theorem Cursor.eq_of_before_eq {line : Int} {k m m' : Nat} {ts us : List Token}
    (h : before line (k + m) ts = before line (k + m') us) : m = m' :=
  Nat.add_left_cancel (congrArg Cursor.position h)

/-- Going to the next token is moving over one. -/
theorem Cursor.moved_of_next {line : Int} {k m : Nat} {t : Token} {ts us : List Token}
    (h : (before line k (t :: ts)).next = before line (k + m) us) : 1 = m := by
  rw [next_before_cons] at h
  exact eq_of_before_eq h

theorem moved_of_advance {line : Int} {k m : Nat} {t a : Token} {ts : List Token}
    (h : advance.run (.before line k (t :: ts)) =
      .ok a (.before line (k + m) ((t :: ts).drop m))) : 1 = m :=
  Cursor.moved_of_next (EStateM.Result.ok.inj h).2

theorem moved_of_accept {line : Int} {k m : Nat} {t a : Token} {ts : List Token} {kind : TokenKind}
    (h : (accept? [kind]).run (.before line k (t :: ts)) =
      .ok (some a) (.before line (k + m) ((t :: ts).drop m))) : 1 = m := by
  rw [run_accept] at h
  split at h
  · exact Cursor.moved_of_next (EStateM.Result.ok.inj h).2
  · cases (EStateM.Result.ok.inj h).1

/-- Wherever `p` stops, it has moved forward over some of the tokens ahead, and an error is about
the token under the cursor. -/
structure Moves (p : Parser α) : Prop where
  ok : ∀ {line k ts a c}, p.run (.before line k ts) = .ok a c →
    ∃ m ≤ ts.length, c = .before line (k + m) (ts.drop m)
  error : ∀ {line k ts e c}, p.run (.before line k ts) = .error e c →
    e.token = c.current ∧ ∃ m ≤ ts.length, c = .before line (k + m) (ts.drop m)

namespace Moves

theorem pure (a : α) : Moves (Pure.pure a) where
  ok {line k ts a' c} h := by
    obtain ⟨-, rfl⟩ : a = a' ∧ Cursor.before line k ts = c := by
      simpa [EStateM.run_pure] using h
    exact ⟨0, Nat.zero_le _, rfl⟩
  error h := by simp [EStateM.run_pure] at h

theorem bind {p : Parser α} {f : α → Parser β} (hp : Moves p) (hf : ∀ a, Moves (f a)) :
    Moves (p >>= f) where
  ok h := by
    obtain ⟨a, d, hprun, hfrun⟩ := run_bind_ok.1 h
    obtain ⟨m, hm, rfl⟩ := hp.ok hprun
    obtain ⟨m', hm', rfl⟩ := (hf a).ok hfrun
    rw [List.length_drop] at hm'
    exact ⟨m + m', by omega, (Cursor.before_drop_add ..).symm⟩
  error h := by
    obtain hprun | ⟨a, d, hprun, hfrun⟩ := run_bind_error.1 h
    · exact hp.error hprun
    · obtain ⟨m, hm, rfl⟩ := hp.ok hprun
      obtain ⟨htoken, m', hm', rfl⟩ := (hf a).error hfrun
      rw [List.length_drop] at hm'
      exact ⟨htoken, m + m', by omega, (Cursor.before_drop_add ..).symm⟩

/-- A move that looks at the cursor and leaves it where it is. -/
theorem of_look {p : Parser α} (hp : ∀ c, ∃ a, p.run c = .ok a c) : Moves p where
  ok {line k ts a c} h := by
    obtain ⟨b, hb⟩ := hp (.before line k ts)
    obtain ⟨-, rfl⟩ : b = a ∧ Cursor.before line k ts = c := by simpa [hb] using h
    exact ⟨0, Nat.zero_le _, rfl⟩
  error {line k ts e c} h := by
    obtain ⟨b, hb⟩ := hp (.before line k ts)
    rw [hb] at h
    cases h

theorem peek : Moves peek :=
  of_look fun _ => ⟨_, rfl⟩

theorem atEnd : Moves atEnd :=
  of_look fun _ => ⟨_, rfl⟩

theorem tokensAhead : Moves tokensAhead :=
  of_look fun _ => ⟨_, rfl⟩

theorem stop (fault : Fault) : Moves (stop fault : Parser α) where
  ok h := by
    rw [run_stop] at h
    cases h
  error h := by
    rw [run_stop] at h
    cases h
    exact ⟨rfl, 0, Nat.zero_le _, rfl⟩

theorem advance : Moves advance where
  ok {line k ts a c} h := by
    rw [run_advance] at h
    cases h
    cases ts with
    | nil => exact ⟨0, Nat.zero_le _, rfl⟩
    | cons t ts => exact ⟨1, by simp, Cursor.next_before_cons ..⟩
  error h := by
    rw [run_advance] at h
    cases h

theorem check (kind : TokenKind) : Moves (check kind) :=
  peek.bind fun _ => .pure _

theorem accept (kinds : List TokenKind) : Moves (accept? kinds) := by
  refine peek.bind fun t => ?_
  split
  · exact advance.bind fun _ => .pure _
  · exact .pure _

end Moves

/-- A parser that moves over at least one token whenever it returns. -/
structure Takes (p : Parser α) : Prop where
  ok : ∀ {line k ts a m}, p.run (.before line k ts) = .ok a (.before line (k + m) (ts.drop m)) →
    1 ≤ m

namespace Takes

theorem stop (fault : Fault) : Takes (stop fault : Parser α) :=
  ⟨fun hrun => nomatch hrun⟩

theorem eat {kind : TokenKind} (hkind : kind ≠ .endOfText) (e : Expectation) :
    Takes (eat kind e) where
  ok {line k ts a m} hrun := by
    rw [run_eat] at hrun
    split at hrun
    · next hcurrent =>
      cases ts with
      | nil => exact absurd hcurrent.symm hkind
      | cons t ts => exact (Cursor.moved_of_next (EStateM.Result.ok.inj hrun).2).le
    · cases hrun

theorem bind {p : Parser α} {f : α → Parser β} (hp : Takes p) (hmp : Moves p)
    (hmf : ∀ a, Moves (f a)) : Takes (p >>= f) where
  ok {line k ts b m} hrun := by
    obtain ⟨a, d, hprun, hfrun⟩ := run_bind_ok.1 hrun
    obtain ⟨i, -, rfl⟩ := hmp.ok hprun
    obtain ⟨j, -, hj⟩ := (hmf a).ok hfrun
    obtain rfl : m = i + j := Cursor.eq_of_before_eq (hj.trans (Cursor.before_drop_add ..).symm)
    exact (hp.ok hprun).trans (Nat.le_add_right i j)

end Takes

end Moves

/-! ## Comparing runs -/

/-- The terms on which two runs are compared: up to which place their texts are the same, and which
faults are to be the same. -/
structure Comparison where
  limit : Nat
  counted : Fault → Prop

namespace Comparison

variable {α β γ δ : Type} {X : Comparison}

/-- What `p` does after `k` tokens and before `ts`, `q` does after `k` tokens and before `us`, as
long as `p` gets no further than the limit. -/
structure Follows (X : Comparison) (view : α → γ) (p q : Parser α) (k : Nat)
    (ts us : List Token) : Prop where
  ok : ∀ {line m a} (line' : Int), k + m ≤ X.limit →
    p.run (.before line k ts) = .ok a (.before line (k + m) (ts.drop m)) →
    ∃ b, q.run (.before line' k us) = .ok b (.before line' (k + m) (us.drop m)) ∧ view a = view b
  error : ∀ {line m e} (line' : Int), k + m ≤ X.limit → X.counted e.fault →
    p.run (.before line k ts) = .error e (.before line (k + m) (ts.drop m)) →
    ∃ e', q.run (.before line' k us) = .error e' (.before line' (k + m) (us.drop m)) ∧
      e'.fault = e.fault

/-- `q` does what `p` does, wherever the tokens ahead are shared up to the limit. -/
structure Parallel (X : Comparison) (view : α → γ) (p q : Parser α) : Prop where
  moves : Moves p
  follows : ∀ {k ts us}, k ≤ X.limit → Shared (X.limit - k) ts us → X.Follows view p q k ts us

namespace Follows

variable {view : α → γ} {view' : β → δ} {k : Nat} {ts us : List Token}

/-- Runs are compared by what they come to. -/
theorem congr {p p' q q' : Parser α} (h : X.Follows view p' q' k ts us)
    (hp : ∀ line, p.run (.before line k ts) = p'.run (.before line k ts))
    (hq : ∀ line, q.run (.before line k us) = q'.run (.before line k us)) :
    X.Follows view p q k ts us where
  ok line' hm hrun := by
    rw [hp] at hrun
    rw [hq]
    exact h.ok line' hm hrun
  error line' hm hfault hrun := by
    rw [hp] at hrun
    rw [hq]
    exact h.error line' hm hfault hrun

theorem pure {a b : α} (h : view a = view b) :
    X.Follows view (Pure.pure a) (Pure.pure b) k ts us where
  ok {line m a'} line' _ hrun := by
    obtain ⟨rfl, hc⟩ : a = a' ∧ Cursor.before line k ts = .before line (k + m) (ts.drop m) := by
      simpa [EStateM.run_pure] using hrun
    obtain rfl : 0 = m := Cursor.eq_of_before_eq hc
    exact ⟨b, rfl, h⟩
  error _ _ _ hrun := by simp [EStateM.run_pure] at hrun

theorem peek {t u : Token} {f g : Token → Parser β}
    (h : X.Follows view' (f t) (g u) k (t :: ts) (u :: us)) :
    X.Follows view' (peek >>= f) (peek >>= g) k (t :: ts) (u :: us) :=
  h.congr (fun _ => rfl) (fun _ => rfl)

theorem check {t u : Token} {kind : TokenKind} {f g : Bool → Parser β}
    (h : X.Follows view' (f (decide (t.kind = kind))) (g (decide (u.kind = kind))) k
      (t :: ts) (u :: us)) :
    X.Follows view' (check kind >>= f) (check kind >>= g) k (t :: ts) (u :: us) :=
  h.congr (fun _ => rfl) (fun _ => rfl)

theorem atEnd {t u : Token} {f g : Bool → Parser β}
    (h : X.Follows view' (f false) (g false) k (t :: ts) (u :: us)) :
    X.Follows view' (atEnd >>= f) (atEnd >>= g) k (t :: ts) (u :: us) :=
  h.congr (fun _ => rfl) (fun _ => rfl)

/-- The first actions are compared, and what follows them wherever they may end. -/
theorem bind {p q : Parser α} {f g : α → Parser β} (hp : X.Follows view p q k ts us)
    (hmp : Moves p) (hmf : ∀ a, Moves (f a))
    (hf : ∀ {line m a b}, view a = view b → k + m ≤ X.limit →
      p.run (.before line k ts) = .ok a (.before line (k + m) (ts.drop m)) →
      X.Follows view' (f a) (g b) (k + m) (ts.drop m) (us.drop m)) :
    X.Follows view' (p >>= f) (q >>= g) k ts us where
  ok {line m b'} line' hm hrun := by
    obtain ⟨a, d, hprun, hfrun⟩ := run_bind_ok.1 hrun
    obtain ⟨i, -, rfl⟩ := hmp.ok hprun
    obtain ⟨j, -, hj⟩ := (hmf a).ok hfrun
    obtain rfl : m = i + j := Cursor.eq_of_before_eq (hj.trans (Cursor.before_drop_add ..).symm)
    have hi : k + i ≤ X.limit := by omega
    obtain ⟨b, hb, hview⟩ := hp.ok line' hi hprun
    rw [Cursor.before_drop_add] at hfrun
    obtain ⟨b'', hb'', hview'⟩ := (hf hview hi hprun).ok line' (by omega) hfrun
    exact ⟨b'', by rw [run_bind_of_ok hb, hb'', Cursor.before_drop_add], hview'⟩
  error {line m e} line' hm hfault hrun := by
    obtain hprun | ⟨a, d, hprun, hfrun⟩ := run_bind_error.1 hrun
    · obtain ⟨e', he', hsame⟩ := hp.error line' hm hfault hprun
      exact ⟨e', run_bind_error.2 (.inl he'), hsame⟩
    · obtain ⟨i, -, rfl⟩ := hmp.ok hprun
      obtain ⟨-, j, -, hj⟩ := (hmf a).error hfrun
      obtain rfl : m = i + j := Cursor.eq_of_before_eq (hj.trans (Cursor.before_drop_add ..).symm)
      have hi : k + i ≤ X.limit := by omega
      obtain ⟨b, hb, hview⟩ := hp.ok line' hi hprun
      rw [Cursor.before_drop_add] at hfrun
      obtain ⟨e', he', hsame⟩ := (hf hview hi hprun).error line' (by omega) hfault hfrun
      exact ⟨e', by rw [run_bind_of_ok hb, he', Cursor.before_drop_add], hsame⟩

end Follows

/-! ## One rule for each move -/

namespace Parallel

variable {view : α → γ} {view' : β → δ}

theorem pure {a b : α} (h : view a = view b) : X.Parallel view (Pure.pure a) (Pure.pure b) :=
  ⟨.pure a, fun _ _ => .pure h⟩

theorem bind {p q : Parser α} {f g : α → Parser β} (hp : X.Parallel view p q)
    (hf : ∀ a b, view a = view b → X.Parallel view' (f a) (g b)) :
    X.Parallel view' (p >>= f) (q >>= g) where
  moves := hp.moves.bind fun a => (hf a a rfl).moves
  follows {k ts us} hk hshared := by
    refine (hp.follows hk hshared).bind hp.moves (fun a => (hf a a rfl).moves) ?_
    intro line m a b hview hm _
    exact (hf a b hview).follows hm (hshared.sub_drop hm)

theorem map {p q : Parser α} {g : α → β} (hp : X.Parallel view p q)
    (hg : ∀ a b, view a = view b → view' (g a) = view' (g b)) :
    X.Parallel view' (g <$> p) (g <$> q) := by
  rw [map_eq_pure_bind, map_eq_pure_bind]
  exact hp.bind fun a b h => .pure (hg a b h)

theorem peek : X.Parallel Token.unlined peek peek where
  moves := .peek
  follows {k ts us} _ hshared := by
    constructor
    · intro line m a line' _ hrun
      obtain ⟨rfl, hc⟩ : (Cursor.before line k ts).current = a ∧ _ :=
        EStateM.Result.ok.inj hrun
      obtain rfl : 0 = m := Cursor.eq_of_before_eq hc
      exact ⟨_, rfl, hshared.current line line' k⟩
    · intro line m e line' _ _ hrun
      cases hrun

theorem advance : X.Parallel Token.unlined advance advance where
  moves := .advance
  follows {k ts us} _ hshared := by
    constructor
    · intro line m a line' _ hrun
      obtain ⟨rfl, hc⟩ :
          (Cursor.before line k ts).current = a ∧ (Cursor.before line k ts).next = _ :=
        EStateM.Result.ok.inj hrun
      obtain ⟨rfl, rfl⟩ | ⟨t, u, ts, us, rfl, rfl, ht⟩ := hshared.cases
      · obtain rfl : 0 = m := Cursor.eq_of_before_eq hc
        exact ⟨_, rfl, rfl⟩
      · obtain rfl : 1 = m := Cursor.moved_of_next hc
        exact ⟨u, by rw [run_advance, Cursor.next_before_cons]; rfl, ht⟩
    · intro line m e line' _ _ hrun
      cases hrun

theorem stop (fault : Fault) : X.Parallel view (stop fault) (stop fault) where
  moves := .stop fault
  follows {k ts us} _ hshared := by
    constructor
    · intro line m a line' _ hrun
      cases hrun
    · intro line m e line' _ _ hrun
      obtain ⟨rfl, hc⟩ : (⟨fault, (Cursor.before line k ts).current⟩ : Error) = e ∧ _ :=
        EStateM.Result.error.inj hrun
      obtain rfl : 0 = m := Cursor.eq_of_before_eq hc
      exact ⟨_, rfl, rfl⟩

/-- A fault that does not count may be followed by anything. -/
theorem stop_uncounted {fault : Fault} (h : ¬ X.counted fault) (q : Parser α) :
    X.Parallel view (Grammar.stop fault) q where
  moves := .stop fault
  follows {k ts us} _ _ := by
    constructor
    · intro line m a line' _ hrun
      cases hrun
    · intro line m e line' _ hfault hrun
      obtain ⟨rfl, -⟩ := EStateM.Result.error.inj hrun
      exact absurd hfault h

theorem check (kind : TokenKind) : X.Parallel id (check kind) (check kind) :=
  peek.bind fun t u h => .pure (by simp [(Token.unlined_eq_iff.1 h).1])

theorem eat (kind : TokenKind) (e : Expectation) :
    X.Parallel Token.unlined (eat kind e) (eat kind e) := by
  refine peek.bind fun t u h => ?_
  rw [(Token.unlined_eq_iff.1 h).1]
  split
  · exact advance
  · exact stop _

theorem accept (kinds : List TokenKind) :
    X.Parallel (Option.map Token.unlined) (accept? kinds) (accept? kinds) := by
  refine peek.bind fun t u h => ?_
  rw [(Token.unlined_eq_iff.1 h).1]
  split
  · exact advance.bind fun t u h => .pure (congrArg some h)
  · exact .pure rfl

/-- A look at the kind of the next token has the same answer on both sides. -/
theorem check_bind {kind : TokenKind} {f g : Bool → Parser β}
    (hf : ∀ b, X.Parallel view' (f b) (g b)) :
    X.Parallel view' (Grammar.check kind >>= f) (Grammar.check kind >>= g) := by
  refine (check kind).bind ?_
  rintro b _ rfl
  exact hf b

/-- A token is moved over on both sides or on neither. -/
theorem accept_bind {kinds : List TokenKind} {f g : Option Token → Parser β}
    (hnone : X.Parallel view' (f none) (g none))
    (hsome : ∀ t u, X.Parallel view' (f (some t)) (g (some u))) :
    X.Parallel view' (accept? kinds >>= f) (accept? kinds >>= g) := by
  refine (accept kinds).bind ?_
  rintro (_ | t) (_ | u) h
  · exact hnone
  · cases h
  · cases h
  · exact hsome t u

/-- The number of tokens ahead is not the same in both texts, so what follows must do the same for
either number. -/
theorem tokensAhead {f g : Nat → Parser β} (hmoves : ∀ n, Moves (f n))
    (hfollows : ∀ {k ts us}, k ≤ X.limit → Shared (X.limit - k) ts us →
      X.Follows view' (f ts.length) (g us.length) k ts us) :
    X.Parallel view' (tokensAhead >>= f) (tokensAhead >>= g) where
  moves := Moves.tokensAhead.bind hmoves
  follows hk hshared := (hfollows hk hshared).congr
    (fun _ => run_bind_of_ok (run_tokensAhead ..)) (fun _ => run_bind_of_ok (run_tokensAhead ..))

/-- A loop with rounds for all tokens ahead, and what follows it. -/
theorem tokensAhead_bind {loop loop' : Nat → Parser α} {f g : α → Parser β}
    (hmoves : ∀ n, Moves (loop n))
    (hloop : ∀ {k ts us}, k ≤ X.limit → Shared (X.limit - k) ts us →
      X.Follows view (loop ts.length) (loop' us.length) k ts us)
    (hf : ∀ a b, view a = view b → X.Parallel view' (f a) (g b)) :
    X.Parallel view' (Grammar.tokensAhead >>= fun n => loop n >>= f)
      (Grammar.tokensAhead >>= fun n => loop' n >>= g) := by
  rw [← bind_assoc, ← bind_assoc]
  exact (tokensAhead hmoves hloop).bind hf

end Parallel

/-! ## Moves that take a token -/

/-- Two parsers run alongside each other, and the first moves over a token whenever it returns. -/
structure Advancing (X : Comparison) (view : α → γ) (p q : Parser α) : Prop
    extends X.Parallel view p q where
  takes : Takes p

namespace Advancing

variable {view : α → γ} {view' : β → δ}

theorem eat {kind : TokenKind} (hkind : kind ≠ .endOfText) (e : Expectation) :
    X.Advancing Token.unlined (eat kind e) (eat kind e) :=
  ⟨.eat kind e, .eat hkind e⟩

/-- The first action takes a token. -/
theorem bind {p q : Parser α} {f g : α → Parser β} (hp : X.Advancing view p q)
    (hf : ∀ a b, view a = view b → X.Parallel view' (f a) (g b)) :
    X.Advancing view' (p >>= f) (q >>= g) :=
  ⟨hp.toParallel.bind hf, hp.takes.bind hp.moves fun a => (hf a a rfl).moves⟩

theorem map {p q : Parser α} {g : α → β} (hp : X.Advancing view p q)
    (hg : ∀ a b, view a = view b → view' (g a) = view' (g b)) :
    X.Advancing view' (g <$> p) (g <$> q) := by
  rw [map_eq_pure_bind, map_eq_pure_bind]
  exact hp.bind fun a b h => .pure (hg a b h)

theorem peek_bind {f g : Token → Parser β}
    (hf : ∀ t u, t.unlined = u.unlined → X.Advancing view' (f t) (g u)) :
    X.Advancing view' (Grammar.peek >>= f) (Grammar.peek >>= g) where
  toParallel := Parallel.peek.bind fun t u h => (hf t u h).toParallel
  takes := ⟨fun hrun => by
    rw [run_bind_of_ok (run_peek _)] at hrun
    exact (hf _ _ rfl).takes.ok hrun⟩

end Advancing

end Comparison

end Scriptlet.Grammar
