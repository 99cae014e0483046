import Scriptlet.Proofs.Evaluation
import Scriptlet.Proofs.Machine.Steps

/-!
# Assembled code does what the tree says

Running the code of a program and evaluating its tree come to the same thing: one ends if and only
if the other does; they print the same lines, write the same text and leave the same variables and
the same heap; and if one stops with a fault so does the other, with the same fault and at the same
state of the world.

## What is here

* `CodeAt code k cs` — the instructions `cs` stand in the code from the index `k` on, and something
  stands behind them.
* `Leads code bound s r target` — **the simulation**.  If the evaluation whose outcome is `r` ends,
  the machine goes from `s` to the state `target` says; if it stops with a fault, the machine fails
  with that fault; if it runs out of rounds, the machine takes at least `bound` steps.
* `Leads.bind` — simulations are chained as evaluations are.
* `Expr.leads`, `Stmt.leads` — the code of expressions and statements simulates their evaluation.
* `run_assemble_iff` — the result for whole programs.

The third case of `Leads` is what makes the simulation work in both directions: every round of a
loop takes steps, so a machine that stops after `n` steps cannot have got past `n` rounds.
-/

set_option autoImplicit false
namespace Scriptlet

open Machine Evaluation

/-! ## Code in its place -/

/-- The instructions stand in the code from the index on, and something stands behind them. -/
def CodeAt (code : Array Instruction) (k : Nat) (cs : List Instruction) : Prop :=
  ∃ before after, code.toList = before ++ (cs ++ after) ∧ before.length = k ∧ after ≠ []

namespace CodeAt

variable {code : Array Instruction} {k j : Nat} {xs ys : List Instruction} {i : Instruction}

theorem left (h : CodeAt code k (xs ++ ys)) : CodeAt code k xs := by
  obtain ⟨before, after, heq, hlen, hne⟩ := h
  refine ⟨before, ys ++ after, ?_, hlen, List.append_ne_nil_of_right_ne_nil ys hne⟩
  rw [heq, List.append_assoc]

theorem right (h : CodeAt code k (xs ++ ys)) (hj : j = k + xs.length) : CodeAt code j ys := by
  obtain ⟨before, after, heq, hlen, hne⟩ := h
  refine ⟨before ++ xs, after, ?_, by rw [List.length_append, hlen, hj], hne⟩
  rw [heq, List.append_assoc, List.append_assoc]

theorem tail (h : CodeAt code k (i :: xs)) : CodeAt code (k + 1) xs :=
  (show CodeAt code k ([i] ++ xs) from h).right rfl

theorem lt_size (h : CodeAt code k xs) : k + xs.length < code.size := by
  obtain ⟨before, after, heq, hlen, hne⟩ := h
  have hsize := congrArg List.length heq
  have hpos := List.length_pos_iff.2 hne
  rw [Array.length_toList, List.length_append, List.length_append] at hsize
  omega

theorem fetch (h : CodeAt code k (i :: xs)) : fetch code k = .instruction i := by
  have hlt := h.lt_size
  obtain ⟨before, after, heq, hlen, -⟩ := h
  rw [fetch_of_lt (by omega)]
  have hget : code[k]? = some i := by
    rw [← Array.getElem?_toList, heq, List.getElem?_append_right (by omega), hlen, Nat.sub_self]
    rfl
  rw [Array.getElem?_eq_getElem (by omega), Option.some.injEq] at hget
  rw [hget]

end CodeAt

theorem codeAt_programLayout (program : List Stmt) :
    CodeAt (programLayout program).toArray 0 (Stmt.layoutAll program 0) :=
  ⟨[], [⟨.halt, none⟩], rfl, rfl, by simp⟩

/-! ## Simulation -/

/-- The state of the machine with a counter, a stack and a world. -/
def World.state (w : World) (k : Nat) (stack : List Value) : State :=
  ⟨k, stack, w.store, w.heap, w.output, w.written⟩

/-- The world of a state of the machine. -/
def Machine.State.world (s : State) : World :=
  ⟨s.store, s.heap, s.output, s.written⟩

/-- **What the machine does where an evaluation has an outcome.** -/
def Leads [Limits] (code : Array Instruction) (bound : Nat) (s : State) {α : Type}
    (r : EStateM.Result Stop World α) (target : α → World → State) : Prop :=
  match r with
  | .ok a w => ∃ n, Steps code n s (target a w)
  | .error (.fault f) w => ∃ n t t', Steps code n s t ∧ Fails code t f t' ∧ t'.world = w
  | .error .outOfRounds _ => ∃ n t, bound ≤ n ∧ Steps code n s t

namespace Leads

variable [Limits] {code : Array Instruction} {bound m : Nat} {s s' : State} {α β : Type}
  {w : World} {x : Evaluation α} {g : α → Evaluation β} {target : α → World → State}
  {target' : β → World → State}

/-- Steps before a simulation count. -/
theorem after {r : EStateM.Result Stop World α} (hsteps : Steps code m s s')
    (h : Leads code bound s' r target) : Leads code (m + bound) s r target := by
  rcases r with ⟨a, w⟩ | ⟨f | _, w⟩
  · obtain ⟨n, hn⟩ := h
    exact ⟨m + n, hsteps.trans hn⟩
  · obtain ⟨n, t, t', hn, hfail⟩ := h
    exact ⟨m + n, t, t', hsteps.trans hn, hfail⟩
  · obtain ⟨n, t, hle, hn⟩ := h
    exact ⟨m + n, t, by omega, hsteps.trans hn⟩

theorem mono {r : EStateM.Result Stop World α} (h : Leads code bound s r target) (hm : m ≤ bound) :
    Leads code m s r target := by
  rcases r with ⟨a, w⟩ | ⟨f | _, w⟩
  · exact h
  · exact h
  · obtain ⟨n, t, hle, hn⟩ := h
    exact ⟨n, t, by omega, hn⟩

/-- Steps behind a simulation. -/
theorem trans {r : EStateM.Result Stop World α} {target₂ : α → World → State}
    (h : Leads code bound s r target)
    (hsteps : ∀ a w, Steps code m (target a w) (target₂ a w)) : Leads code bound s r target₂ := by
  rcases r with ⟨a, w⟩ | ⟨f | _, w⟩
  · obtain ⟨n, hn⟩ := h
    exact ⟨n + m, hn.trans (hsteps a w)⟩
  · exact h
  · exact h

/-- **Simulations are chained as evaluations are.** -/
theorem bind (hx : Leads code bound s (x.run w) target)
    (hg : ∀ a w', x.run w = .ok a w' →
      Leads code bound (target a w') ((g a).run w') target') :
    Leads code bound s ((x >>= g).run w) target' := by
  rw [EStateM.run_bind]
  cases hr : x.run w with
  | ok a w' =>
    rw [hr] at hx
    obtain ⟨n, hn⟩ := hx
    exact (after hn (hg a w' hr)).mono (by omega)
  | error stop w' =>
    rw [hr] at hx
    cases stop <;> exact hx

end Leads

/-! ## Instructions and operations -/

section

variable [Limits] {code : Array Instruction} {bound j k : Nat} {i : Instruction}
  {cs : List Instruction} {stack : List Value} {w : World}

theorem CodeAt.step (h : CodeAt code k (i :: cs)) (hi : i.opcode ≠ .halt) {s : State}
    (hrun : (execute code.size i).run (w.state k stack) = .ok () s) :
    Steps code 1 (w.state k stack) s :=
  Step.steps ⟨i, h.fetch, hi, hrun⟩

/-- An instruction that performs an operation on values; `rest` is on the stack if that fails. -/
theorem Leads.ofExcept {α : Type} {r : Except Fault α} {target : α → World → State}
    (rest : List Value) (h : CodeAt code k (i :: cs)) (hi : i.opcode ≠ .halt)
    (hrun : (execute code.size i).run (w.state k stack) =
      match r with
      | .ok a => .ok () (target a w)
      | .error f => .error f (w.state k rest)) :
    Leads code bound (w.state k stack) ((Evaluation.ofExcept r).run w) target := by
  cases r with
  | ok a => exact ⟨1, h.step hi hrun⟩
  | error f => exact ⟨0, _, _, .refl _, ⟨i, h.fetch, hi, hrun⟩, rfl⟩

theorem leads_lookUp {name : String} (h : CodeAt code k (⟨.load, some name⟩ :: cs)) :
    Leads code bound (w.state k stack) ((lookUp name).run w)
      fun v w' => w'.state (k + 1) (v :: stack) := by
  show Leads code bound _ ((Evaluation.ofExcept (valueOf w.store name)).run w) _
  refine .ofExcept stack h Opcode.noConfusion ?_
  rw [World.state, run_execute_load, valueOf]
  cases w.store.get? (some name) <;> rfl

/-! ## Expressions -/

theorem length_of_evalAll : ∀ {es : List Expr} {vs : List Value} {w w' : World},
    (Expr.evalAll es).run w = .ok vs w' → vs.length = es.length
  | [], vs, w, w', h => by
    cases h
    rfl
  | e :: es, vs, w, w', h => by
    rw [Expr.evalAll, EStateM.run_bind] at h
    cases he : e.eval.run w with
    | error stop w₁ =>
      rw [he] at h
      exact nomatch h
    | ok v w₁ =>
      rw [he] at h
      dsimp only at h
      rw [EStateM.run_bind] at h
      cases hes : (Expr.evalAll es).run w₁ with
      | error stop w₂ =>
        rw [hes] at h
        exact nomatch h
      | ok us w₂ =>
        rw [hes] at h
        cases h
        rw [List.length_cons, List.length_cons, length_of_evalAll hes]

mutual

/-- **The code of an expression leaves its value on the stack.** -/
theorem Expr.leads (hsize : code.size ≤ 10 ^ Decimal.integerDigitLimit) :
    ∀ (e : Expr) {j k : Nat} {stack : List Value} {w : World},
    CodeAt code k e.code → j = k + e.code.length →
    Leads code bound (w.state k stack) (e.eval.run w) fun v w' => w'.state j (v :: stack)
  | .literal v _, j, k, stack, w, h, hj => by
    subst hj
    have hne : v.code.opcode ≠ .halt := by cases v <;> exact Opcode.noConfusion
    exact ⟨1, h.step hne (run_execute_literal v)⟩
  | .variable name _, j, k, stack, w, h, hj => by
    subst hj
    exact leads_lookUp h
  | .unary op e _, j, k, stack, w, h, hj => by
    rw [Expr.code, List.length_append, List.length_singleton] at hj
    subst hj
    refine .bind (e.leads hsize h.left rfl) fun v w' _ => ?_
    refine .ofExcept stack (h.right rfl) Opcode.noConfusion ?_
    rw [World.state, run_execute_unary]
    cases applyUnary op v <;> rfl
  | .binary l op r _, j, k, stack, w, h, hj => by
    rw [Expr.code, List.length_append, List.length_append, List.length_singleton,
      ← Nat.add_assoc, ← Nat.add_assoc] at hj
    subst hj
    refine .bind (l.leads hsize h.left.left rfl) fun a w₁ _ => ?_
    refine .bind (r.leads hsize (h.left.right rfl) rfl) fun b w₂ _ => ?_
    refine .ofExcept (r := applyBinary w₂.heap op a b) stack
      (h.right (by rw [List.length_append, Nat.add_assoc])) Opcode.noConfusion ?_
    rw [World.state, run_execute_binary]
    cases applyBinary w₂.heap op a b <;> rfl
  | .array es _, j, k, stack, w, h, hj => by
    rw [Expr.code, List.length_append, List.length_singleton] at hj
    subst hj
    refine .bind (Expr.leadsAll hsize es h.left rfl) fun vs w' hvs => ?_
    have hlen : es.length = vs.reverse.length := by
      rw [List.length_reverse, length_of_evalAll hvs]
    have hread : es.length < 10 ^ Decimal.integerDigitLimit := by
      have := h.lt_size
      have := Expr.length_le_codeAll es
      rw [Expr.code, List.length_append] at *
      omega
    have hstack : es.length ≤ (vs.reverse ++ stack).length := by
      rw [List.length_append]
      omega
    refine ⟨1, (h.right rfl).step Opcode.noConfusion ?_⟩
    rw [World.state, run_execute_makeArray hread hstack, hlen, List.drop_left, List.take_left,
      List.reverse_reverse]
    rfl
  | .element name i _, j, k, stack, w, h, hj => by
    obtain rfl : j = k + 1 + i.code.length + 1 := by
      rw [hj, Expr.code, List.length_cons, List.length_append, List.length_singleton]
      omega
    refine .bind (leads_lookUp h) fun array w₁ _ => ?_
    refine .bind (i.leads hsize h.tail.left rfl) fun index w₂ _ => ?_
    refine .ofExcept (r := loadElement w₂.heap array index) stack (h.tail.right rfl)
      Opcode.noConfusion ?_
    rw [World.state, run_execute_loadElement]
    cases loadElement w₂.heap array index <;> rfl

/-- The code of some expressions leaves their values on the stack, the last one on top. -/
theorem Expr.leadsAll (hsize : code.size ≤ 10 ^ Decimal.integerDigitLimit) :
    ∀ (es : List Expr) {j k : Nat} {stack : List Value} {w : World},
    CodeAt code k (Expr.codeAll es) → j = k + (Expr.codeAll es).length →
    Leads code bound (w.state k stack) ((Expr.evalAll es).run w)
      fun vs w' => w'.state j (vs.reverse ++ stack)
  | [], j, k, stack, w, _, hj => by
    subst hj
    exact ⟨0, .refl _⟩
  | e :: es, j, k, stack, w, h, hj => by
    rw [Expr.codeAll, List.length_append, ← Nat.add_assoc] at hj
    refine .bind (e.leads hsize h.left rfl) fun v w₁ _ => ?_
    refine .bind (Expr.leadsAll hsize es (h.right rfl) hj) fun vs w₂ _ => ?_
    refine ⟨0, ?_⟩
    dsimp only
    rw [List.reverse_cons, List.append_assoc]
    exact .refl _

end

/-! ## Statements -/

theorem leads_print {v : Value} (h : CodeAt code k (⟨.print, none⟩ :: cs)) :
    Leads code bound (w.state k (v :: stack)) ((Evaluation.print v).run w)
      fun _ w' => w'.state (k + 1) stack := by
  have hshown : Leads code bound (w.state k (v :: stack))
      ((Evaluation.ofExcept (shown w.heap v)).run w)
      fun line w' => World.state { w' with
        output := w'.output.push line
        written := w'.written ++ line ++ "\n" } (k + 1) stack := by
    refine .ofExcept stack h Opcode.noConfusion ?_
    rw [World.state, run_execute_print]
    cases shown w.heap v <;> rfl
  show Leads code bound _ ((Evaluation.ofExcept (shown w.heap v) >>= fun line =>
    modify fun w => { w with
      output := w.output.push line
      written := w.written ++ line ++ "\n" }).run w) _
  exact .bind hshown fun line w' _ => ⟨0, .refl _⟩

theorem leads_assignElement {name : String} {index v : Value}
    (h : CodeAt code k (⟨.storeElement, some name⟩ :: cs)) :
    Leads code bound (w.state k (index :: v :: stack))
      ((Evaluation.assignElement name index v).run w) fun _ w' => w'.state (k + 1) stack := by
  have hslot : Leads code bound (w.state k (index :: v :: stack))
      ((Evaluation.ofExcept (slotOf w.heap (some name) (w.store.get? (some name)) index)).run w)
      fun place _ =>
        World.state { w with heap := w.heap.write place.1 place.2 v } (k + 1) stack := by
    refine .ofExcept stack h Opcode.noConfusion ?_
    rw [World.state, run_execute_storeElement]
    cases slotOf w.heap (some name) (w.store.get? (some name)) index <;> rfl
  show Leads code bound _ ((Evaluation.ofExcept (slotOf w.heap (some name)
    (w.store.get? (some name)) index) >>= fun place =>
      set { w with heap := w.heap.write place.1 place.2 v }).run w) _
  exact .bind hslot fun place w' _ => ⟨0, .refl _⟩

theorem Binding.leads (hsize : code.size ≤ 10 ^ Decimal.integerDigitLimit) (b : Binding)
    (h : CodeAt code k b.code) (hj : j = k + b.code.length) :
    Leads code bound (w.state k []) (b.eval.run w) fun _ w' => w'.state j [] := by
  rw [Binding.code, List.length_append, List.length_singleton] at hj
  subst hj
  refine .bind (b.value.leads hsize h.left rfl) fun v w' _ => ?_
  exact ⟨1, (h.right rfl).step Opcode.noConfusion (run_execute_store (some b.name) v)⟩

theorem ForInit.leads (hsize : code.size ≤ 10 ^ Decimal.integerDigitLimit) (c : ForInit)
    (h : CodeAt code k c.code) (hj : j = k + c.code.length) :
    Leads code bound (w.state k []) (c.eval.run w) fun _ w' => w'.state j [] := by
  cases c with
  | declare b => exact b.leads hsize h hj
  | assign b => exact b.leads hsize h hj

theorem leads_optional {α : Type} {eval : α → Evaluation Unit} {f : α → List Instruction}
    (hf : ∀ a, CodeAt code k (f a) → j = k + (f a).length →
      Leads code bound (w.state k []) ((eval a).run w) fun _ w' => w'.state j [])
    (o : Option α) (h : CodeAt code k (optionalCode f o)) (hj : j = k + (optionalCode f o).length) :
    Leads code bound (w.state k []) ((evalOptional eval o).run w) fun _ w' => w'.state j [] := by
  cases o with
  | none =>
    subst hj
    exact ⟨0, .refl _⟩
  | some a => exact hf a h hj

theorem ForClauses.leads_condition (hsize : code.size ≤ 10 ^ Decimal.integerDigitLimit)
    (c : ForClauses) (h : CodeAt code k c.conditionCode) (hj : j = k + c.conditionCode.length) :
    Leads code bound (w.state k []) (c.evalCondition.run w) fun v w' => w'.state j [v] := by
  unfold ForClauses.conditionCode at h hj
  unfold ForClauses.evalCondition
  cases hc : c.condition with
  | some e =>
    rw [hc] at h hj
    exact e.leads hsize h hj
  | none =>
    rw [hc] at h hj
    subst hj
    exact ⟨1, h.step Opcode.noConfusion (run_execute_literal (.bool true))⟩

/-! ### Jumps -/

/-- A condition that has been evaluated decides where to go on. -/
theorem leads_jumpIfFalse (hsize : code.size ≤ 10 ^ Decimal.integerDigitLimit) {t : Nat} {v : Value}
    {x y : Evaluation Unit} {target : Unit → World → State}
    (h : CodeAt code k (jumpTo .jumpIfFalse t :: cs)) (ht : t < code.size)
    (hx : Leads code bound (w.state (k + 1) []) (x.run w) target)
    (hy : Leads code bound (w.state t []) (y.run w) target) :
    Leads code (1 + bound) (w.state k [v]) ((if v.truthy then x else y).run w) target := by
  have hread : t < 10 ^ Decimal.integerDigitLimit := Nat.lt_of_lt_of_le ht hsize
  cases hv : v.truthy with
  | true =>
    refine .after (h.step Opcode.noConfusion ?_) hx
    rw [World.state, run_execute_jumpIfFalse hread (Nat.le_of_lt ht), hv]
    rfl
  | false =>
    refine .after (h.step Opcode.noConfusion ?_) hy
    rw [World.state, run_execute_jumpIfFalse hread (Nat.le_of_lt ht), hv]
    rfl

theorem CodeAt.jump (hsize : code.size ≤ 10 ^ Decimal.integerDigitLimit) {t : Nat}
    (h : CodeAt code k (jumpTo .jump t :: cs)) (ht : t < code.size) :
    Steps code 1 (w.state k []) (w.state t []) :=
  h.step Opcode.noConfusion (run_execute_jump (Nat.lt_of_lt_of_le ht hsize) (Nat.le_of_lt ht))

/-- A loop: every round takes steps, so running out of rounds takes at least as many steps. -/
theorem leads_repeatWhile (hsize : code.size ≤ 10 ^ Decimal.integerDigitLimit)
    {condition : Evaluation Value} {body : Evaluation Unit} {xs : List Instruction}
    {f : Nat → List Instruction} (h : CodeAt code k (loopLayout xs f k))
    (hj : j = k + (loopLayout xs f k).length)
    (hcondition : ∀ w : World, Leads code bound (w.state k []) (condition.run w)
      fun v w' => w'.state (k + xs.length) [v])
    (hbody : ∀ w : World, Leads code bound (w.state (k + xs.length + 1) []) (body.run w)
      fun _ w' => w'.state (k + xs.length + 1 + (f (k + xs.length + 1)).length) [])
    (n : Nat) (hn : n ≤ bound) (w : World) :
    Leads code n (w.state k []) ((repeatWhile condition body n).run w)
      fun _ w' => w'.state j [] := by
  have hend := h.lt_size
  rw [← hj] at hend
  have hj' : j = k + xs.length + 1 + (f (k + xs.length + 1)).length + 1 := by
    rw [hj, loopLayout]
    simp only [List.length_append, List.length_cons, List.length_nil]
    omega
  unfold loopLayout at h
  simp only [← hj'] at h
  induction n generalizing w with
  | zero => exact ⟨0, _, Nat.le_refl 0, .refl _⟩
  | succ n ih =>
    refine .bind ((hcondition w).mono hn) fun v w₁ _ => ?_
    have hround : Leads code n (w₁.state (k + xs.length + 1) [])
        ((body >>= fun _ => repeatWhile condition body n).run w₁)
        fun _ w' => w'.state j [] := by
      refine .bind ((hbody w₁).mono (by omega)) fun _ w₂ _ => ?_
      exact (Leads.after ((h.right rfl).tail.right rfl |>.jump hsize (by omega))
        (ih (by omega) w₂)).mono (by omega)
    rw [Nat.add_comm]
    exact leads_jumpIfFalse hsize (h.right rfl) hend hround ⟨0, .refl _⟩

/-! ### Statements of all kinds -/

mutual

/-- **The code of a statement does what the statement says.** -/
theorem Stmt.leads (hsize : code.size ≤ 10 ^ Decimal.integerDigitLimit) (rounds : Nat) :
    ∀ (s : Stmt) {j k : Nat} {w : World}, CodeAt code k (s.layout k) →
      j = k + (s.layout k).length →
      Leads code rounds (w.state k []) ((s.eval rounds).run w) fun _ w' => w'.state j []
  | .declare b, _, _, _, h, hj => b.leads hsize h hj
  | .assign b, _, _, _, h, hj => b.leads hsize h hj
  | .assignElement name i v _, j, k, w, h, hj => by
    rw [Stmt.layout, List.length_append, List.length_append, List.length_singleton,
      ← Nat.add_assoc, ← Nat.add_assoc] at hj
    subst hj
    refine .bind (v.leads hsize h.left.left rfl) fun a w₁ _ => ?_
    refine .bind (i.leads hsize (h.left.right rfl) rfl) fun index w₂ _ => ?_
    exact leads_assignElement (h.right (by rw [List.length_append, Nat.add_assoc]))
  | .print v _, j, k, w, h, hj => by
    rw [Stmt.layout, List.length_append, List.length_singleton] at hj
    subst hj
    exact .bind (v.leads hsize h.left rfl) fun a w₁ _ => leads_print (h.right rfl)
  | .block body _, _, _, _, h, hj => Stmt.leadsAll hsize rounds body h hj
  | .ifThen c body _ _, j, k, w, h, hj => by
    have hend := h.lt_size
    rw [← hj] at hend
    have hj' : j = k + c.code.length + 1
        + (Stmt.layoutAll body (k + c.code.length + 1)).length := by
      rw [hj, Stmt.layout, List.length_append, List.length_cons]
      omega
    rw [Stmt.layout, ← hj'] at h
    refine .bind (c.leads hsize h.left rfl) fun v w₁ _ => ?_
    refine Leads.mono (leads_jumpIfFalse hsize (h.right rfl) hend
      (Stmt.leadsAll hsize rounds body (h.right rfl).tail hj') ?_) (Nat.le_add_left _ 1)
    exact ⟨0, .refl _⟩
  | .ifElse c body _ otherwise _ _, j, k, w, h, hj => by
    have hend := h.lt_size
    rw [← hj] at hend
    simp only [Stmt.layout, List.length_append, List.length_cons] at h hj
    generalize hbodyAt : k + c.code.length + 1 = bodyAt at h hj
    generalize hleaveAt : bodyAt + (Stmt.layoutAll body bodyAt).length = leaveAt at h hj
    have hj' : j = leaveAt + 1 + (Stmt.layoutAll otherwise (leaveAt + 1)).length := by omega
    rw [← hj'] at h
    have hbody := (h.right rfl).tail
    rw [hbodyAt] at hbody
    have hleave := hbody.right hleaveAt.symm
    refine .bind (c.leads hsize h.left rfl) fun v w₁ _ => ?_
    refine Leads.mono (leads_jumpIfFalse hsize (h.right rfl) (by omega) ?_
      (Stmt.leadsAll hsize rounds otherwise hleave.tail hj')) (Nat.le_add_left _ 1)
    rw [hbodyAt]
    exact (Stmt.leadsAll hsize rounds body hbody.left hleaveAt.symm).trans
      fun _ w₂ => hleave.jump hsize hend
  | .whileLoop c body _ _, j, k, w, h, hj => by
    have hbody := (h.right rfl).tail.left
    exact leads_repeatWhile hsize h hj (fun w => c.leads hsize h.left rfl)
      (fun w => Stmt.leadsAll hsize rounds body hbody rfl) rounds (Nat.le_refl _) w
  | .forLoop c body _ _, j, k, w, h, hj => by
    rw [Stmt.layout, List.length_append, ← Nat.add_assoc] at hj
    have hloop := h.right rfl
    have hbody := (hloop.right rfl).tail.left
    refine .bind (leads_optional (fun a => a.leads hsize) c.init h.left rfl) fun _ w₁ _ => ?_
    refine leads_repeatWhile hsize hloop hj (fun w => c.leads_condition hsize hloop.left rfl)
      (fun w => ?_) rounds (Nat.le_refl _) w₁
    refine .bind (Stmt.leadsAll hsize rounds body hbody.left rfl) fun _ w₂ _ => ?_
    exact leads_optional (fun a => a.leads hsize) c.increment (hbody.right rfl)
      (by rw [List.length_append]; omega)

theorem Stmt.leadsAll (hsize : code.size ≤ 10 ^ Decimal.integerDigitLimit) (rounds : Nat) :
    ∀ (ss : List Stmt) {j k : Nat} {w : World}, CodeAt code k (Stmt.layoutAll ss k) →
      j = k + (Stmt.layoutAll ss k).length →
      Leads code rounds (w.state k []) ((Stmt.evalAll rounds ss).run w) fun _ w' => w'.state j []
  | [], j, k, w, _, hj => by
    subst hj
    exact ⟨0, .refl _⟩
  | s :: ss, j, k, w, h, hj => by
    rw [Stmt.layoutAll, List.length_append, ← Nat.add_assoc] at hj
    exact .bind (s.leads hsize rounds h.left rfl) fun _ w₁ _ =>
      Stmt.leadsAll hsize rounds ss (h.right rfl) hj

end

end

/-! ## Programs -/

section Programs

variable [Limits] {program : List Stmt}

/-- The machine rests where the code of a program ends. -/
theorem run_at_halt (program : List Stmt) (w : World) (n : Nat) :
    run (programLayout program).toArray n (w.state ((programLayout program).length - 1) []) =
      (.halted, w.state ((programLayout program).length - 1) []) := by
  have hget : (programLayout program)[(programLayout program).length - 1]? =
      some ⟨.halt, none⟩ := by
    unfold programLayout
    rw [List.length_append, List.length_singleton, Nat.add_sub_cancel,
      List.getElem?_append_right (Nat.le_refl _), Nat.sub_self]
    rfl
  obtain ⟨hlt, hi⟩ := List.getElem?_eq_some_iff.1 hget
  have hlt' : (programLayout program).length - 1 < (programLayout program).toArray.size := hlt
  refine run_of_halt (i := ⟨.halt, none⟩) ?_ rfl
  rw [← hi]
  exact fetch_of_lt hlt'

/-- What the machine does for each outcome of the evaluation. -/
theorem run_of_evaluate (hsize : (programLayout program).length ≤ 10 ^ Decimal.integerDigitLimit)
    (rounds : Nat) :
    match evaluate rounds program with
    | .ok _ w => ∃ n, run (programLayout program).toArray n {} =
        (.halted, w.state ((programLayout program).length - 1) [])
    | .error (.fault f) w => ∃ n s, run (programLayout program).toArray n {} =
        (.failed ⟨f, s.counter⟩, s) ∧ s.world = w
    | .error .outOfRounds _ =>
      ∀ n < rounds, (run (programLayout program).toArray n {}).1 = .outOfSteps := by
  have hend : (programLayout program).length - 1 = 0 + (Stmt.layoutAll program 0).length := by
    simp [programLayout]
  have h : Leads (programLayout program).toArray rounds {} (evaluate rounds program)
      fun _ w' => w'.state ((programLayout program).length - 1) [] :=
    Stmt.leadsAll hsize rounds program (w := {}) (codeAt_programLayout program) hend
  generalize evaluate rounds program = outcome at h ⊢
  rcases outcome with ⟨_, w⟩ | ⟨f | _, w⟩
  · obtain ⟨n, hsteps⟩ := h
    exact ⟨n + 0, by rw [run_of_steps hsteps, run_at_halt]⟩
  · obtain ⟨n, t, s, hsteps, hfails, hw⟩ := h
    exact ⟨n + 1, s, by rw [run_of_steps hsteps, run_of_fails hfails], hw⟩
  · obtain ⟨n, t, hle, hsteps⟩ := h
    exact fun m hm => outOfSteps_of_steps hsteps (by omega)

/-- A machine that has come to an end after `n` steps shows the outcome of the evaluation with one
round more. -/
theorem evaluate_of_ended (hsize : (programLayout program).length ≤ 10 ^ Decimal.integerDigitLimit)
    {n : Nat} {r : Ending × State} (hrun : run (programLayout program).toArray n {} = r)
    (hend : r.1 ≠ .outOfSteps) :
    (∃ w, evaluate (n + 1) program = .ok () w ∧
      r = (.halted, w.state ((programLayout program).length - 1) [])) ∨
    ∃ f w s, evaluate (n + 1) program = .error (.fault f) w ∧
      r = (.failed ⟨f, s.counter⟩, s) ∧ s.world = w := by
  have h := run_of_evaluate hsize (n + 1)
  rw [← hrun] at hend ⊢
  generalize evaluate (n + 1) program = outcome at h ⊢
  rcases outcome with ⟨_, w⟩ | ⟨f | _, w⟩
  · obtain ⟨m, hm⟩ := h
    have hend' : (run (programLayout program).toArray m {}).1 ≠ .outOfSteps := by
      rw [hm]
      exact Ending.noConfusion
    exact .inl ⟨w, rfl, (run_eq_of_ended hend hend').trans hm⟩
  · obtain ⟨m, s, hm, hw⟩ := h
    have hend' : (run (programLayout program).toArray m {}).1 ≠ .outOfSteps := by
      rw [hm]
      exact Ending.noConfusion
    exact .inr ⟨f, w, s, rfl, (run_eq_of_ended hend hend').trans hm, hw⟩
  · exact absurd (h n (Nat.lt_succ_self n)) hend

end Programs

/-- **Assembled code does what the tree says.**  Running the code of a program from a fresh state
and evaluating its tree

* end both or neither;
* end normally together, and then the machine is left on the last instruction with an empty stack,
  and with the variables, the heap, the printed lines and the written text of the evaluation;
* stop with a fault together, with the same fault, variables, heap, printed lines and written text.

Jump targets and element counts are written in decimal, and the machine reads integers of a limited
length, so the code must not be longer than it can count. -/
theorem run_assemble_iff [Limits] (program : List Stmt)
    (hsize : (assemble program).code.size ≤ 10 ^ Decimal.integerDigitLimit) :
    ((∃ n, (run (assemble program).code n {}).1 ≠ .outOfSteps) ↔
      ∃ rounds, ∀ w, evaluate rounds program ≠ .error .outOfRounds w) ∧
    (∀ s : State, (∃ n, run (assemble program).code n {} = (.halted, s)) ↔
      ∃ rounds w, evaluate rounds program = .ok () w ∧
        s = ⟨((assemble program).code.size - 1 : Nat), [], w.store, w.heap, w.output,
          w.written⟩) ∧
    ∀ (f : Fault) (w : World),
      (∃ n index s, run (assemble program).code n {} = (.failed ⟨f, index⟩, s) ∧ s.world = w) ↔
        ∃ rounds, evaluate rounds program = .error (.fault f) w := by
  rw [assemble_code] at hsize ⊢
  rw [List.size_toArray] at hsize ⊢
  refine ⟨⟨?_, ?_⟩, fun s => ⟨?_, ?_⟩, fun f w => ⟨?_, ?_⟩⟩
  · rintro ⟨n, hend⟩
    refine ⟨n + 1, fun w hout => ?_⟩
    rcases evaluate_of_ended hsize rfl hend with ⟨w', heval, -⟩ | ⟨f, w', s, heval, -⟩
    · exact nomatch heval.symm.trans hout
    · exact nomatch heval.symm.trans hout
  · rintro ⟨rounds, hend⟩
    have h := run_of_evaluate hsize rounds
    generalize evaluate rounds program = outcome at h hend
    rcases outcome with ⟨_, w⟩ | ⟨f | _, w⟩
    · obtain ⟨n, hrun⟩ := h
      exact ⟨n, by rw [hrun]; exact Ending.noConfusion⟩
    · obtain ⟨n, s, hrun, -⟩ := h
      exact ⟨n, by rw [hrun]; exact Ending.noConfusion⟩
    · exact absurd rfl (hend w)
  · rintro ⟨n, hhalt⟩
    rcases evaluate_of_ended hsize hhalt Ending.noConfusion with
      ⟨w, heval, heq⟩ | ⟨f, w, t, -, heq, -⟩
    · exact ⟨n + 1, w, heval, (Prod.mk.inj heq).2⟩
    · exact nomatch (Prod.mk.inj heq).1
  · rintro ⟨rounds, w, heval, rfl⟩
    have h := run_of_evaluate hsize rounds
    rw [heval] at h
    exact h
  · rintro ⟨n, index, s, hfail, rfl⟩
    rcases evaluate_of_ended hsize hfail Ending.noConfusion with
      ⟨w, -, heq⟩ | ⟨g, w, t, heval, heq, hw⟩
    · exact nomatch (Prod.mk.inj heq).1
    · obtain ⟨hending, rfl⟩ := Prod.mk.inj heq
      obtain ⟨rfl, -⟩ := Error.mk.inj (Ending.failed.inj hending)
      exact ⟨n + 1, hw ▸ heval⟩
  · rintro ⟨rounds, heval⟩
    have h := run_of_evaluate hsize rounds
    rw [heval] at h
    obtain ⟨n, s, hrun, hw⟩ := h
    exact ⟨n, s.counter, s, hrun, hw⟩

/-- A loop whose body ends it after one round, and then an undefined variable: the machine fails on
it with one line printed and one variable set, as the evaluation does with two rounds. -/
theorem run_assemble_undefined :
    let _ : Limits := ⟨20, 20⟩
    let program : List Stmt :=
      [.declare ⟨"x", .literal (.bool true) 1, 1⟩,
        .whileLoop (.variable "x" 2)
          [.assign ⟨"x", .literal (.bool false) 3, 3⟩, .print (.variable "x" 4) 4] 2 2,
        .print (.variable "y" 6) 6]
    (assemble program).code.size ≤ 10 ^ Decimal.integerDigitLimit ∧
      ∃ n index s,
        run (assemble program).code n {} = (.failed ⟨.undefined (some "y"), index⟩, s) ∧
          s.world = ⟨[(some "x", .bool false)], {}, #["false"], "false\n"⟩ := by
  intro limits program
  have hsize : (assemble program).code.size ≤ 10 ^ Decimal.integerDigitLimit := by
    rw [assemble_code]
    exact le_digitLimit (by decide)
  exact ⟨hsize, ((run_assemble_iff program hsize).2.2 _ _).2 ⟨2, rfl⟩⟩

end Scriptlet
