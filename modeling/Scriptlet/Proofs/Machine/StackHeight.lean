import Scriptlet.Proofs.Machine.Effect

/-!
# The height of the stack

Assembled code cannot go wrong by its structure.  How high the stack is depends on the counter
alone: reading the code from its start, without following any jump, and counting what each
instruction takes and gives, one gets the height of the stack at every instruction, whatever way a
run came there.

## What is here

* `heightAt code k` — the height of the stack at the instruction `k`, read off the code.
* `Stmt.landmarks s k` — the indexes in the code of a statement where statements, loops and other
  branches start or end.  All jumps go to landmarks, and at all of them the stack is empty.
* `Ready` — an instruction finds as many values as it takes, and an operand it can read.
* `Flow` — every instruction of some straight piece of code is ready when its turn comes.
* `height_of_steps` — the invariant of a run, from what one step preserves (`Flow.step`).

The two facts that the induction on statements needs are that the code of an expression raises the
height by one and that the code of a statement keeps it; a jump is ready only where nothing but its
own condition is on the stack, so it arrives at its landmark with an empty one.
-/

set_option autoImplicit false
namespace Scriptlet

open Machine

/-! ## Heights -/

/-- How many values an instruction takes off the stack. -/
def Instruction.takes (i : Instruction) : Nat :=
  match i.opcode with
  | .store | .unary _ | .jumpIfFalse | .print => 1
  | .binary _ | .loadElement | .storeElement => 2
  | .makeArray => ((i.operand.bind Decimal.readInteger?).getD 0).toNat
  | _ => 0

/-- How many values an instruction puts on the stack. -/
def Instruction.gives (i : Instruction) : Nat :=
  match i.opcode with
  | .constNumber | .constString | .constChar | .constBool | .constNull | .load | .unary _
  | .binary _ | .makeArray | .loadElement => 1
  | _ => 0

/-- The height after some code has been gone through from a height. -/
def heightAfter (h : Nat) (code : List Instruction) : Nat :=
  code.foldl (fun h i => h - i.takes + i.gives) h

/-- The height at an index of some code, which starts with an empty stack. -/
def heightAt (code : List Instruction) (k : Nat) : Nat :=
  heightAfter 0 (code.take k)

theorem heightAfter_append (h : Nat) (xs ys : List Instruction) :
    heightAfter h (xs ++ ys) = heightAfter (heightAfter h xs) ys :=
  List.foldl_append

/-! ## Landmarks -/

mutual

/-- The landmarks strictly inside the code of a statement that starts at an index. -/
def Stmt.inner : Stmt → Nat → List Nat
  | .declare _, _ | .assign _, _ | .assignElement _ _ _ _, _ | .print _ _, _ => []
  | .block body _, k => Stmt.landmarks body k
  | .ifThen condition body _ _, k => Stmt.landmarks body (k + condition.code.length + 1)
  | .ifElse condition body _ otherwise _ _, k =>
    let bodyAt := k + condition.code.length + 1
    let otherwiseAt := bodyAt + (Stmt.layoutAll body bodyAt).length + 1
    Stmt.landmarks body bodyAt ++ Stmt.landmarks otherwise otherwiseAt
  | .whileLoop condition body _ _, k => Stmt.landmarks body (k + condition.code.length + 1)
  | .forLoop clauses body _ _, k =>
    let start := k + (optionalCode ForInit.code clauses.init).length
    let bodyAt := start + clauses.conditionCode.length + 1
    -- the last landmark of the body is where the third clause starts
    start :: Stmt.landmarks body bodyAt

/-- The indexes where the statements of a list and the parts of statements start, and the index
after the last statement. -/
def Stmt.landmarks : List Stmt → Nat → List Nat
  | [], k => [k]
  | s :: ss, k => k :: s.inner k ++ Stmt.landmarks ss (k + (s.layout k).length)

end

theorem Stmt.mem_landmarks (ss : List Stmt) (k : Nat) : k ∈ Stmt.landmarks ss k := by
  cases ss <;> simp [Stmt.landmarks]

theorem Stmt.end_mem_landmarks (ss : List Stmt) (k : Nat) :
    k + (Stmt.layoutAll ss k).length ∈ Stmt.landmarks ss k := by
  induction ss generalizing k with
  | nil => simp [Stmt.landmarks, Stmt.layoutAll]
  | cons s ss ih =>
    rw [Stmt.landmarks, Stmt.layoutAll, List.length_append, ← Nat.add_assoc]
    exact List.mem_append_right _ (ih _)

/-! ## Ready instructions -/

/-- **An instruction is ready** at a height of the stack: the values it takes are there, its operand
can be read, and a jump goes to one of the `targets` with an otherwise empty stack.  A halt is never
ready. -/
inductive Ready (targets : Nat → Prop) : Nat → Instruction → Prop where
  | literal (h : Nat) (v : Literal) : Ready targets h v.code
  | load (h : Nat) (name : Option String) : Ready targets h ⟨.load, name⟩
  | store (h : Nat) (name : Option String) : Ready targets (h + 1) ⟨.store, name⟩
  | unary (h : Nat) (op : UnaryOp) : Ready targets (h + 1) ⟨.unary op, none⟩
  | binary (h : Nat) (op : BinaryOp) : Ready targets (h + 2) ⟨.binary op, none⟩
  | print (h : Nat) : Ready targets (h + 1) ⟨.print, none⟩
  | makeArray (h : Nat) {n : Nat} (readable : n < 10 ^ Decimal.integerDigitLimit) :
      Ready targets (h + n) ⟨.makeArray, some (toString n)⟩
  | loadElement (h : Nat) : Ready targets (h + 2) ⟨.loadElement, none⟩
  | storeElement (h : Nat) (name : Option String) : Ready targets (h + 2) ⟨.storeElement, name⟩
  | jump {t : Nat} (ht : targets t) : Ready targets 0 (jumpTo .jump t)
  | jumpIfFalse {t : Nat} (ht : targets t) : Ready targets 1 (jumpTo .jumpIfFalse t)

theorem Ready.ne_halt {targets : Nat → Prop} {h : Nat} {i : Instruction} (hr : Ready targets h i) :
    i.opcode ≠ .halt := by
  cases hr with
  | literal h v => cases v <;> exact Opcode.noConfusion
  | _ => exact Opcode.noConfusion

theorem takes_literal (v : Literal) : v.code.takes = 0 ∧ v.code.gives = 1 := by
  cases v <;> exact ⟨rfl, rfl⟩

theorem takes_makeArray {n : Nat} (h : n < 10 ^ Decimal.integerDigitLimit) :
    Instruction.takes ⟨.makeArray, some (toString n)⟩ = n := by
  simp only [Instruction.takes, Option.bind_some, Decimal.readInteger?_toString h, Option.getD_some,
    Int.toNat_natCast]

/-! ## Straight pieces of code -/

/-- **Each instruction of the code is ready when its turn comes**, from the height `h` on, and the
code leads to the height `h'`. -/
structure Flow (targets : Nat → Prop) (h : Nat) (code : List Instruction) (h' : Nat) : Prop where
  ready : ∀ (j : Nat) (i : Instruction), code[j]? = some i →
    Ready targets (heightAfter h (code.take j)) i
  height : heightAfter h code = h'

namespace Flow

variable {targets : Nat → Prop} {h h' h'' : Nat} {xs ys : List Instruction} {i : Instruction}

theorem nil (h : Nat) : Flow targets h [] h :=
  ⟨fun _ _ hj => (nomatch hj), rfl⟩

theorem single (hr : Ready targets h i) (heq : h - i.takes + i.gives = h') :
    Flow targets h [i] h' := by
  refine ⟨fun j i' hj => ?_, heq⟩
  obtain ⟨hlt, hi⟩ := List.getElem?_eq_some_iff.1 hj
  obtain rfl : j = 0 := by simpa using hlt
  obtain rfl : i = i' := hi
  exact hr

theorem append (hx : Flow targets h xs h') (hy : Flow targets h' ys h'') :
    Flow targets h (xs ++ ys) h'' := by
  refine ⟨fun j i hj => ?_, by rw [heightAfter_append, hx.height, hy.height]⟩
  rcases Nat.lt_or_ge j xs.length with hlt | hle
  · rw [List.getElem?_append_left hlt] at hj
    rw [List.take_append_of_le_length (Nat.le_of_lt hlt)]
    exact hx.ready j i hj
  · rw [List.getElem?_append_right hle] at hj
    rw [List.take_append, List.take_of_length_le hle, heightAfter_append, hx.height]
    exact hy.ready _ i hj

theorem cons (hr : Ready targets h i) (heq : h - i.takes + i.gives = h')
    (hy : Flow targets h' ys h'') : Flow targets h (i :: ys) h'' :=
  (single hr heq).append hy

end Flow

/-! ### Expressions -/

section Flows

variable {targets : Nat → Prop}

mutual

/-- The code of an expression raises the height by one. -/
theorem Expr.flow_code : ∀ (e : Expr) (h : Nat), e.code.length ≤ 10 ^ Decimal.integerDigitLimit →
    Flow targets h e.code (h + 1)
  | .literal v _, h, _ =>
    .single (.literal h v) (by rw [(takes_literal v).1, (takes_literal v).2]; rfl)
  | .variable _ _, h, _ => .single (.load h _) rfl
  | .unary op e _, h, hsize => by
    rw [Expr.code, List.length_append, List.length_singleton] at hsize
    exact (e.flow_code h (by omega)).append (.single (.unary h op) rfl)
  | .binary l op r _, h, hsize => by
    rw [Expr.code, List.length_append, List.length_append, List.length_singleton] at hsize
    exact ((l.flow_code h (by omega)).append (r.flow_code (h + 1) (by omega))).append
      (.single (.binary h op) rfl)
  | .array es _, h, hsize => by
    rw [Expr.code, List.length_append, List.length_singleton] at hsize
    have hn : es.length < 10 ^ Decimal.integerDigitLimit := by
      have := Expr.length_le_codeAll es
      omega
    refine (Expr.flow_codeAll es h (by omega)).append (.single (.makeArray h hn) ?_)
    rw [takes_makeArray hn, Nat.add_sub_cancel]
    rfl
  | .element _ i _, h, hsize => by
    rw [Expr.code, List.length_cons, List.length_append, List.length_singleton] at hsize
    exact .cons (.load h _) rfl
      ((i.flow_code (h + 1) (by omega)).append (.single (.loadElement h) rfl))

theorem Expr.flow_codeAll : ∀ (es : List Expr) (h : Nat),
    (Expr.codeAll es).length ≤ 10 ^ Decimal.integerDigitLimit →
    Flow targets h (Expr.codeAll es) (h + es.length)
  | [], h, _ => .nil h
  | e :: es, h, hsize => by
    rw [Expr.codeAll, List.length_append] at hsize
    have hes := Expr.flow_codeAll es (h + 1) (by omega)
    rw [Nat.add_assoc, Nat.add_comm 1] at hes
    exact (e.flow_code h (by omega)).append hes

end

/-! ### Statements -/

theorem Binding.flow_code (b : Binding) (hsize : b.code.length ≤ 10 ^ Decimal.integerDigitLimit) :
    Flow targets 0 b.code 0 := by
  rw [Binding.code, List.length_append, List.length_singleton] at hsize
  exact (b.value.flow_code 0 (by omega)).append (.single (.store 0 _) rfl)

theorem flow_optionalCode {α : Type} {code : α → List Instruction}
    (h : ∀ a, (code a).length ≤ 10 ^ Decimal.integerDigitLimit → Flow targets 0 (code a) 0)
    (o : Option α) (hsize : (optionalCode code o).length ≤ 10 ^ Decimal.integerDigitLimit) :
    Flow targets 0 (optionalCode code o) 0 := by
  cases o with
  | none => exact .nil 0
  | some a => exact h a hsize

theorem ForInit.flow_code (i : ForInit) (hsize : i.code.length ≤ 10 ^ Decimal.integerDigitLimit) :
    Flow targets 0 i.code 0 := by
  cases i with
  | declare b => exact b.flow_code hsize
  | assign b => exact b.flow_code hsize

theorem ForClauses.flow_conditionCode (c : ForClauses)
    (hsize : c.conditionCode.length ≤ 10 ^ Decimal.integerDigitLimit) :
    Flow targets 0 c.conditionCode 1 := by
  unfold ForClauses.conditionCode at hsize ⊢
  split at hsize
  · exact Expr.flow_code _ 0 hsize
  · exact .single (.literal 0 (.bool true)) rfl

theorem Flow.loop {cond : List Instruction} {f : Nat → List Instruction} {k : Nat}
    (hcond : Flow targets 0 cond 1) (hbody : Flow targets 0 (f (k + cond.length + 1)) 0)
    (hstart : targets k) (hend : targets (k + (loopLayout cond f k).length)) :
    Flow targets 0 (loopLayout cond f k) 0 := by
  have hlen : k + (loopLayout cond f k).length
      = k + cond.length + 1 + (f (k + cond.length + 1)).length + 1 := by
    simp only [loopLayout, List.length_append, List.length_cons, List.length_nil]
    omega
  rw [hlen] at hend
  exact hcond.append (.cons (.jumpIfFalse hend) rfl (hbody.append (.single (.jump hstart) rfl)))

mutual

/-- **The code of a statement keeps the height**, and its jumps go to its landmarks. -/
theorem Stmt.flow_layout : ∀ (s : Stmt) (k : Nat),
    (s.layout k).length ≤ 10 ^ Decimal.integerDigitLimit →
    targets k → (∀ t ∈ s.inner k, targets t) → targets (k + (s.layout k).length) →
    Flow targets 0 (s.layout k) 0
  | .declare b, _, hsize, _, _, _ => b.flow_code hsize
  | .assign b, _, hsize, _, _, _ => b.flow_code hsize
  | .assignElement _ i v _, _, hsize, _, _, _ => by
    rw [Stmt.layout, List.length_append, List.length_append, List.length_singleton] at hsize
    exact ((v.flow_code 0 (by omega)).append (i.flow_code 1 (by omega))).append
      (.single (.storeElement 0 _) rfl)
  | .print v _, _, hsize, _, _, _ => by
    rw [Stmt.layout, List.length_append, List.length_singleton] at hsize
    exact (v.flow_code 0 (by omega)).append (.single (.print 0) rfl)
  | .block body _, k, hsize, _, hin, _ => Stmt.flow_layoutAll body k hsize hin
  | .ifThen c body _ _, k, hsize, _, hin, hend => by
    simp only [Stmt.layout, List.length_append, List.length_cons, ← Nat.add_assoc] at hsize hend
    have hbody := Stmt.flow_layoutAll body (k + c.code.length + 1) (by omega) hin
    rw [Nat.add_right_comm _ _ 1] at hend
    exact (c.flow_code 0 (by omega)).append (.cons (.jumpIfFalse hend) rfl hbody)
  | .ifElse c body _ otherwise _ _, k, hsize, _, hin, hend => by
    simp only [Stmt.layout, List.length_append, List.length_cons, ← Nat.add_assoc] at hsize hend
    have hbody := Stmt.flow_layoutAll body (k + c.code.length + 1) (by omega)
      fun t ht => hin t (List.mem_append_left _ ht)
    have hotherwise := Stmt.flow_layoutAll otherwise
      (k + c.code.length + 1 + (Stmt.layoutAll body (k + c.code.length + 1)).length + 1) (by omega)
      fun t ht => hin t (List.mem_append_right _ ht)
    have hskip := hin _ (List.mem_append_right _ (Stmt.mem_landmarks otherwise _))
    refine (c.flow_code 0 (by omega)).append (.cons (.jumpIfFalse hskip) rfl
      (hbody.append (.cons (.jump ?_) rfl hotherwise)))
    convert hend using 1
    omega
  | .whileLoop c body _ _, k, hsize, hstart, hin, hend => by
    have hlen := hsize
    simp only [Stmt.layout, loopLayout, List.length_append, List.length_cons] at hlen
    exact .loop (c.flow_code 0 (by omega)) (Stmt.flow_layoutAll body _ (by omega) hin) hstart hend
  | .forLoop c body _ _, k, hsize, _, hin, hend => by
    simp only [Stmt.layout, List.length_append, ← Nat.add_assoc] at hsize hend
    have hlen := hsize
    simp only [loopLayout, List.length_append, List.length_cons] at hlen
    have hstart := hin _ List.mem_cons_self
    have hbody := Stmt.flow_layoutAll body _ (by omega)
      fun t ht => hin t (List.mem_cons_of_mem _ ht)
    exact (flow_optionalCode ForInit.flow_code c.init (by omega)).append
      (.loop (c.flow_conditionCode (by omega))
        (hbody.append (flow_optionalCode Binding.flow_code c.increment (by omega))) hstart hend)

theorem Stmt.flow_layoutAll : ∀ (ss : List Stmt) (k : Nat),
    (Stmt.layoutAll ss k).length ≤ 10 ^ Decimal.integerDigitLimit →
    (∀ t ∈ Stmt.landmarks ss k, targets t) → Flow targets 0 (Stmt.layoutAll ss k) 0
  | [], _, _, _ => .nil 0
  | s :: ss, k, hsize, hin => by
    rw [Stmt.layoutAll, List.length_append] at hsize
    rw [Stmt.landmarks] at hin
    have hrest : ∀ t ∈ Stmt.landmarks ss (k + (s.layout k).length), targets t :=
      fun t ht => hin t (List.mem_append_right _ ht)
    refine (s.flow_layout k (by omega) (hin k List.mem_cons_self) (fun t ht => hin t ?_) ?_).append
      (Stmt.flow_layoutAll ss _ (by omega) hrest)
    · exact List.mem_append_left _ (List.mem_cons_of_mem _ ht)
    · exact hrest _ (Stmt.mem_landmarks ss _)

end

end Flows

/-! ## The stack is empty at landmarks -/

/-- The stack is empty at the index `m` of code that starts at the index `k` with an empty stack. -/
structure Level (k : Nat) (code : List Instruction) (m : Nat) : Prop where
  ge : k ≤ m
  le : m ≤ k + code.length
  height : heightAt code (m - k) = 0

namespace Level

variable {k m : Nat} {xs ys : List Instruction}

theorem start (k : Nat) (xs : List Instruction) : Level k xs k :=
  ⟨Nat.le_refl k, Nat.le_add_right k _, by rw [Nat.sub_self]; rfl⟩

theorem left (h : Level k xs m) : Level k (xs ++ ys) m := by
  have := h.le
  refine ⟨h.ge, by rw [List.length_append]; omega, ?_⟩
  rw [heightAt, List.take_append_of_le_length (by omega)]
  exact h.height

theorem right {i : Nat} (h : Level i ys m) (hi : i = k + xs.length) (hx : heightAfter 0 xs = 0) :
    Level k (xs ++ ys) m := by
  subst hi
  have hge := h.ge
  have hle := h.le
  refine ⟨by omega, by rw [List.length_append]; omega, ?_⟩
  rw [heightAt, List.take_append, List.take_of_length_le (by omega), heightAfter_append, hx,
    Nat.sub_sub]
  exact h.height

/-- Behind a condition and a jump the stack is as before them. -/
theorem guarded {t : Nat} (hx : heightAfter 0 xs = 1) (h : Level (k + xs.length + 1) ys m) :
    Level k (xs ++ jumpTo .jumpIfFalse t :: ys) m := by
  rw [List.append_cons]
  refine h.right (by rw [List.length_append, List.length_singleton, Nat.add_assoc]) ?_
  rw [heightAfter_append, hx]
  rfl

theorem loop {f : Nat → List Instruction} (hx : heightAfter 0 xs = 1)
    (h : Level (k + xs.length + 1) (f (k + xs.length + 1)) m) : Level k (loopLayout xs f k) m :=
  guarded hx h.left

end Level

mutual

theorem Stmt.level_inner : ∀ (s : Stmt) (k : Nat),
    (s.layout k).length ≤ 10 ^ Decimal.integerDigitLimit →
    ∀ m ∈ s.inner k, Level k (s.layout k) m
  | .declare _, _, _, _, hm | .assign _, _, _, _, hm | .assignElement _ _ _ _, _, _, _, hm
  | .print _ _, _, _, _, hm => absurd hm List.not_mem_nil
  | .block body _, k, hsize, m, hm => Stmt.level_landmarks body k hsize m hm
  | .ifThen c body _ _, k, hsize, m, hm => by
    simp only [Stmt.layout, List.length_append, List.length_cons] at hsize
    have hcond : Flow (fun _ => True) 0 c.code 1 := c.flow_code 0 (by omega)
    exact .guarded hcond.height (Stmt.level_landmarks body _ (by omega) m hm)
  | .ifElse c body _ otherwise _ _, k, hsize, m, hm => by
    simp only [Stmt.layout, List.length_append, List.length_cons] at hsize
    have hcond : Flow (fun _ => True) 0 c.code 1 := c.flow_code 0 (by omega)
    have hbody : Flow (fun _ => True) 0 (Stmt.layoutAll body (k + c.code.length + 1)) 0 :=
      Stmt.flow_layoutAll body _ (by omega) fun _ _ => trivial
    rcases List.mem_append.1 hm with hm | hm
    · exact .guarded hcond.height (.left (Stmt.level_landmarks body _ (by omega) m hm))
    · refine .guarded hcond.height ?_
      rw [List.append_cons]
      refine .right (Stmt.level_landmarks otherwise _ (by omega) m hm) ?_ ?_
      · rw [List.length_append, List.length_singleton, Nat.add_assoc]
      · rw [heightAfter_append, hbody.height]
        rfl
  | .whileLoop c body _ _, k, hsize, m, hm => by
    simp only [Stmt.layout, loopLayout, List.length_append, List.length_cons] at hsize
    have hcond : Flow (fun _ => True) 0 c.code 1 := c.flow_code 0 (by omega)
    exact .loop hcond.height (Stmt.level_landmarks body _ (by omega) m hm)
  | .forLoop c body _ _, k, hsize, m, hm => by
    simp only [Stmt.layout, loopLayout, List.length_append, List.length_cons] at hsize
    have hinit : Flow (fun _ => True) 0 (optionalCode ForInit.code c.init) 0 :=
      flow_optionalCode ForInit.flow_code c.init (by omega)
    have hcond : Flow (fun _ => True) 0 c.conditionCode 1 := c.flow_conditionCode (by omega)
    rcases List.mem_cons.1 hm with rfl | hm
    · exact .right (.start _ _) rfl hinit.height
    · exact .right (.loop hcond.height (.left (Stmt.level_landmarks body _ (by omega) m hm))) rfl
        hinit.height

/-- **The stack is empty at every landmark.** -/
theorem Stmt.level_landmarks : ∀ (ss : List Stmt) (k : Nat),
    (Stmt.layoutAll ss k).length ≤ 10 ^ Decimal.integerDigitLimit →
    ∀ m ∈ Stmt.landmarks ss k, Level k (Stmt.layoutAll ss k) m
  | [], k, _, m, hm => by
    obtain rfl : m = k := List.mem_singleton.1 hm
    exact .start m _
  | s :: ss, k, hsize, m, hm => by
    rw [Stmt.layoutAll, List.length_append] at hsize
    have hs : Flow (fun _ => True) 0 (s.layout k) 0 :=
      s.flow_layout k (by omega) trivial (fun _ _ => trivial) trivial
    rw [Stmt.layoutAll]
    rw [Stmt.landmarks, List.mem_append, List.mem_cons] at hm
    rcases hm with (rfl | hm) | hm
    · exact .start m _
    · exact .left (s.level_inner k (by omega) m hm)
    · exact .right (Stmt.level_landmarks ss _ (by omega) m hm) rfl hs.height

end

/-! ## Faults that remain -/

/-- The faults of code that is wrong by its structure.  The others say that a variable is undefined,
that operands are of the wrong kind, that a divisor is zero, that something is not an array, that an
index is bad, or that a value is nested too deeply. -/
def Machine.Fault.isStructural : Fault → Bool
  | .stackUnderflow | .invalidNumber _ | .emptyChar | .notInteger _ _ | .targetOutside _ _ _
  | .tooFewElements _ _ | .notExecutable _ => true
  | .undefined _ | .notAddable | .notNumbers _ | .divisionByZero | .notNumber _ | .loadFromNonArray
  | .storeToNonArray _ | .indexNotNumber | .indexNotFinite _ | .indexOutOfBounds _ _
  | .nestedTooDeeply => false

theorem isStructural_of_isOfValues {f : Fault} (h : f.isOfValues = true) :
    f.isStructural = false := by
  cases f <;> first | rfl | exact nomatch h

/-! ## One step -/

/-- Where a ready instruction may lead: on to the next one, or with an empty stack to a target. -/
structure Arrives (targets : Nat → Prop) (h : Nat) (i : Instruction) (s s' : State) : Prop where
  height : s'.stack.length = h - i.takes + i.gives
  counter : s'.counter = s.counter + 1 ∨ ∃ t : Nat, targets t ∧ s'.counter = t ∧ s'.stack = []

/-- **A ready instruction is executed, or stops with a fault that is not structural.** -/
theorem Ready.execute [Limits] {targets : Nat → Prop} {h : Nat} {i : Instruction}
    (hr : Ready targets h i) {size : Nat}
    (htargets : ∀ t, targets t → t ≤ size ∧ t < 10 ^ Decimal.integerDigitLimit)
    {s : State} (hs : s.stack.length = h) :
    (∃ s', (execute size i).run s = .ok () s' ∧ Arrives targets h i s s') ∨
      ∃ f s', (execute size i).run s = .error f s' ∧ f.isStructural = false := by
  obtain ⟨k, stack, store, heap, output⟩ := s
  cases hr with
  | literal h v =>
    refine .inl ⟨_, run_execute_literal v, ?_, .inl rfl⟩
    rw [(takes_literal v).1, (takes_literal v).2, ← hs]
    rfl
  | load h name =>
    rw [run_execute_load]
    cases store.get? name with
    | some v => exact .inl ⟨_, rfl, congrArg (· + 1) hs, .inl rfl⟩
    | none => exact .inr ⟨_, _, rfl, rfl⟩
  | store h name =>
    obtain ⟨v, rest, rfl⟩ := List.exists_cons_of_length_eq_add_one hs
    exact .inl ⟨_, run_execute_store name v, Nat.succ.inj hs, .inl rfl⟩
  | unary h op =>
    obtain ⟨v, rest, rfl⟩ := List.exists_cons_of_length_eq_add_one hs
    have hsound := (Plain.applyUnary op v).sound
    rw [run_execute_unary]
    cases hv : applyUnary op v with
    | ok r => exact .inl ⟨_, rfl, hs, .inl rfl⟩
    | error f => exact .inr ⟨f, _, rfl, isStructural_of_isOfValues (hsound f hv)⟩
  | binary h op =>
    obtain ⟨b, rest, rfl⟩ := List.exists_cons_of_length_eq_add_one hs
    obtain ⟨a, rest, rfl⟩ := List.exists_cons_of_length_eq_add_one (Nat.succ.inj hs)
    have hsound := (Plain.applyBinary heap op a b).sound
    rw [run_execute_binary]
    cases hv : applyBinary heap op a b with
    | ok r => exact .inl ⟨_, rfl, Nat.succ.inj hs, .inl rfl⟩
    | error f => exact .inr ⟨f, _, rfl, isStructural_of_isOfValues (hsound f hv)⟩
  | print h =>
    obtain ⟨v, rest, rfl⟩ := List.exists_cons_of_length_eq_add_one hs
    have hsound := (Plain.shown heap v).sound
    rw [run_execute_print]
    cases hv : shown heap v with
    | ok line => exact .inl ⟨_, rfl, Nat.succ.inj hs, .inl rfl⟩
    | error f => exact .inr ⟨f, _, rfl, isStructural_of_isOfValues (hsound f hv)⟩
  | @makeArray h n hn =>
    have hle : n ≤ stack.length := by
      rw [show stack.length = h + n from hs]
      omega
    refine .inl ⟨_, run_execute_makeArray hn hle, ?_, .inl rfl⟩
    rw [takes_makeArray hn, ← hs]
    exact congrArg (· + 1) List.length_drop
  | loadElement h =>
    obtain ⟨index, rest, rfl⟩ := List.exists_cons_of_length_eq_add_one hs
    obtain ⟨array, rest, rfl⟩ := List.exists_cons_of_length_eq_add_one (Nat.succ.inj hs)
    have hsound := (Plain.loadElement heap array index).sound
    rw [run_execute_loadElement]
    cases hv : Machine.loadElement heap array index with
    | ok r => exact .inl ⟨_, rfl, Nat.succ.inj hs, .inl rfl⟩
    | error f => exact .inr ⟨f, _, rfl, isStructural_of_isOfValues (hsound f hv)⟩
  | storeElement h name =>
    obtain ⟨index, rest, rfl⟩ := List.exists_cons_of_length_eq_add_one hs
    obtain ⟨v, rest, rfl⟩ := List.exists_cons_of_length_eq_add_one (Nat.succ.inj hs)
    have hsound := Sound.slotOf heap name (store.get? name) index
    rw [run_execute_storeElement]
    cases hv : slotOf heap name (store.get? name) index with
    | ok place => exact .inl ⟨_, rfl, Nat.succ.inj (Nat.succ.inj hs), .inl rfl⟩
    | error f => exact .inr ⟨f, _, rfl, isStructural_of_isOfValues (hsound f hv)⟩
  | jump ht =>
    obtain ⟨hsize, hread⟩ := htargets _ ht
    obtain rfl : stack = [] := List.length_eq_zero_iff.1 hs
    exact .inl ⟨_, run_execute_jump hread hsize, rfl, .inr ⟨_, ht, rfl, rfl⟩⟩
  | jumpIfFalse ht =>
    obtain ⟨hsize, hread⟩ := htargets _ ht
    obtain ⟨v, rest, rfl⟩ := List.exists_cons_of_length_eq_add_one hs
    obtain rfl : rest = [] := List.length_eq_zero_iff.1 (Nat.succ.inj hs)
    refine .inl ⟨_, run_execute_jumpIfFalse hread hsize v, rfl, ?_⟩
    cases v.truthy with
    | true => exact .inl rfl
    | false => exact .inr ⟨_, ht, rfl, rfl⟩

/-! ## Runs of assembled code -/

section Runs

variable {program : List Stmt}

/-- All instructions of a program but the last are ready, each at its height. -/
theorem ready_of_lt (hsize : (programLayout program).length ≤ 10 ^ Decimal.integerDigitLimit)
    {k : Nat} (hk : k + 1 < (programLayout program).length) {i : Instruction}
    (hi : (programLayout program)[k]? = some i) :
    Ready (· ∈ Stmt.landmarks program 0) (heightAt (programLayout program) k) i := by
  rw [length_programLayout] at hsize hk
  rw [programLayout, List.getElem?_append_left (by omega)] at hi
  rw [heightAt, programLayout, List.take_append_of_le_length (by omega)]
  exact (Stmt.flow_layoutAll program 0 (by omega) fun _ ht => ht).ready k i hi

theorem heightAt_landmark (hsize : (programLayout program).length ≤ 10 ^ Decimal.integerDigitLimit)
    {m : Nat} (hm : m ∈ Stmt.landmarks program 0) :
    m < (programLayout program).length ∧ heightAt (programLayout program) m = 0 := by
  rw [length_programLayout] at hsize ⊢
  have h := Stmt.level_landmarks program 0 (by omega) m hm
  have hle := h.le
  exact ⟨by omega, h.left.height⟩

/-- Only the last instruction is a halt. -/
theorem halt_iff (hsize : (programLayout program).length ≤ 10 ^ Decimal.integerDigitLimit) {k : Nat}
    {i : Instruction} (hi : (programLayout program)[k]? = some i) :
    i.opcode = .halt ↔ k + 1 = (programLayout program).length := by
  have hk : k < (programLayout program).length := (List.getElem?_eq_some_iff.1 hi).1
  constructor
  · intro hop
    by_contra hne
    exact (ready_of_lt hsize (by omega) hi).ne_halt hop
  · intro hlast
    have : (programLayout program)[k]? = some ⟨.halt, none⟩ := by
      rw [length_programLayout] at hlast
      rw [programLayout, List.getElem?_append_right (by omega), show k - _ = 0 by omega]
      rfl
    rw [hi, Option.some.injEq] at this
    rw [this]

/-- The counter is at an instruction, and the stack has the height that the code says. -/
structure AtHeight (code : List Instruction) (s : State) (k : Nat) (i : Instruction) : Prop where
  counter : s.counter = k
  instruction : code[k]? = some i
  height : s.stack.length = heightAt code k

theorem AtHeight.fetch {code : List Instruction} {s : State} {k : Nat} {i : Instruction}
    (h : AtHeight code s k i) : fetch code.toArray s.counter = .instruction i := by
  obtain ⟨hlt, hi⟩ := List.getElem?_eq_some_iff.1 h.instruction
  rw [h.counter, fetch_of_lt (by rw [List.size_toArray]; exact hlt), List.getElem_toArray, hi]

theorem heightAt_succ {code : List Instruction} {k : Nat} {i : Instruction}
    (hi : code[k]? = some i) : heightAt code (k + 1) = heightAt code k - i.takes + i.gives := by
  rw [heightAt, List.take_add_one, hi, heightAfter_append]
  rfl

theorem exists_atHeight {code : List Instruction} {s : State} {k : Nat} (hk : k < code.length)
    (hcounter : s.counter = k) (hheight : s.stack.length = heightAt code k) :
    ∃ k i, AtHeight code s k i :=
  ⟨k, code[k], hcounter, List.getElem?_eq_getElem hk, hheight⟩

/-- What an instruction before the last one can do: it keeps the height right, or has a fault that
is not structural. -/
theorem AtHeight.execute [Limits]
    (hsize : (programLayout program).length ≤ 10 ^ Decimal.integerDigitLimit)
    {s : State} {k : Nat} {i : Instruction} (h : AtHeight (programLayout program) s k i)
    (hi : i.opcode ≠ .halt) :
    (∃ s', (execute (programLayout program).length i).run s = .ok () s' ∧
      ∃ k' i', AtHeight (programLayout program) s' k' i') ∨
    ∃ f s', (execute (programLayout program).length i).run s = .error f s' ∧
      f.isStructural = false := by
  have hk : k + 1 < (programLayout program).length := by
    have hlt := (List.getElem?_eq_some_iff.1 h.instruction).1
    have := (halt_iff hsize h.instruction).not.1 hi
    omega
  have hready := ready_of_lt hsize hk h.instruction
  have htargets : ∀ t ∈ Stmt.landmarks program 0,
      t ≤ (programLayout program).length ∧ t < 10 ^ Decimal.integerDigitLimit := by
    intro t ht
    have := (heightAt_landmark hsize ht).1
    omega
  rcases hready.execute htargets h.height with ⟨s', hrun, harrives⟩ | hfault
  · refine .inl ⟨s', hrun, ?_⟩
    rcases harrives.counter with hnext | ⟨t, ht, hjump, hstack⟩
    · refine exists_atHeight hk (by rw [hnext, h.counter]; rfl) ?_
      rw [harrives.height, heightAt_succ h.instruction]
    · obtain ⟨hlt, hzero⟩ := heightAt_landmark hsize ht
      refine exists_atHeight hlt hjump ?_
      rw [hzero, hstack]
      rfl
  · exact .inr hfault

theorem AtHeight.step [Limits]
    (hsize : (programLayout program).length ≤ 10 ^ Decimal.integerDigitLimit)
    {s s' : State} (h : ∃ k i, AtHeight (programLayout program) s k i)
    (hstep : Step (programLayout program).toArray s s') :
    ∃ k i, AtHeight (programLayout program) s' k i := by
  obtain ⟨k, i, h⟩ := h
  obtain ⟨i', hfetch, hi, hrun⟩ := hstep
  obtain rfl : i = i' := by
    rw [h.fetch] at hfetch
    exact Fetched.instruction.inj hfetch
  rw [List.size_toArray] at hrun
  rcases h.execute hsize hi with ⟨s'', hrun', h'⟩ | ⟨f, s'', hrun', -⟩
  · rw [hrun] at hrun'
    cases hrun'
    exact h'
  · rw [hrun] at hrun'
    exact nomatch hrun'

/-- **The invariant of a run**: after any number of steps the counter is at an instruction, and the
stack has the height that the code says. -/
theorem height_of_steps [Limits]
    (hsize : (programLayout program).length ≤ 10 ^ Decimal.integerDigitLimit)
    {n : Nat} {s s' : State} (h : ∃ k i, AtHeight (programLayout program) s k i)
    (hsteps : Steps (programLayout program).toArray n s s') :
    ∃ k i, AtHeight (programLayout program) s' k i := by
  induction hsteps with
  | refl => exact h
  | head first _ ih => exact ih (AtHeight.step hsize h first)

theorem AtHeight.fails [Limits]
    (hsize : (programLayout program).length ≤ 10 ^ Decimal.integerDigitLimit)
    {s s' : State} {k : Nat} {i : Instruction} {f : Fault}
    (h : AtHeight (programLayout program) s k i)
    (hfails : Fails (programLayout program).toArray s f s') : f.isStructural = false := by
  obtain ⟨i', hfetch, hi, hrun⟩ := hfails
  obtain rfl : i = i' := by
    rw [h.fetch] at hfetch
    exact Fetched.instruction.inj hfetch
  rw [List.size_toArray] at hrun
  rcases h.execute hsize hi with ⟨s'', hrun', -⟩ | ⟨f', s'', hrun', hf⟩
  · rw [hrun] at hrun'
    exact nomatch hrun'
  · rw [hrun] at hrun'
    cases hrun'
    exact hf

theorem Ready.target {targets : Nat → Prop} {h : Nat} {i : Instruction} (hr : Ready targets h i)
    (hop : i.opcode.isJump = true) : ∃ t, targets t ∧ i.operand = some (toString t) := by
  cases hr with
  | jump ht => exact ⟨_, ht, rfl⟩
  | jumpIfFalse ht => exact ⟨_, ht, rfl⟩
  | literal h v =>
    rw [v.isJump_code] at hop
    exact nomatch hop
  | _ => exact nomatch hop

/-- Every jump of a program goes to a landmark. -/
theorem jump_to_landmark (hsize : (programLayout program).length ≤ 10 ^ Decimal.integerDigitLimit)
    {i : Instruction} (hi : i ∈ programLayout program) (hop : i.opcode.isJump = true) :
    ∃ t ∈ Stmt.landmarks program 0, i.operand = some (toString t) := by
  obtain ⟨k, hk⟩ := List.mem_iff_getElem?.1 hi
  have hlt := (List.getElem?_eq_some_iff.1 hk).1
  have hne : k + 1 ≠ (programLayout program).length := by
    intro hlast
    rw [(halt_iff hsize hk).2 hlast] at hop
    exact nomatch hop
  exact (ready_of_lt hsize (by omega) hk).target hop

/-- A run of assembled code stays within the code, and has no structural fault. -/
theorem AtHeight.run [Limits]
    (hsize : (programLayout program).length ≤ 10 ^ Decimal.integerDigitLimit)
    {s : State} (h : ∃ k i, AtHeight (programLayout program) s k i) (n : Nat) :
    match (run (programLayout program).toArray n s).1 with
    | .halted | .outOfSteps => True
    | .failed e => e.fault.isStructural = false
    | .leftProgram | .lost => False := by
  obtain ⟨m, t, hsteps, hend⟩ := exists_steps_of_run (programLayout program).toArray n s
  obtain ⟨k, i, ht⟩ := height_of_steps hsize h hsteps
  rcases hend with hrest | ⟨f, s', hfail, hrun⟩
  · rw [hrest, Machine.run, ht.fetch]
    by_cases hi : i.opcode = .halt
    · simp only [if_pos hi]
    · simp only [if_neg hi]
  · rw [hrun]
    exact ht.fails hsize hfail

end Runs

/-- **Assembled code never goes wrong by its structure.**  In every state that a run of a program
reaches, the counter is at an instruction, the height of the stack is the one that the code says for
that instruction, and a halt is the last instruction; if the instruction fails, the fault is not
structural.  The height is zero at all landmarks, which are the starts of statements and of loops
and other branches and the places after them, the halt among them; all jumps go to landmarks.

Jump targets and element counts are written in decimal, and the machine reads integers of a limited
length, so the code must not be longer than it can count. -/
theorem height_of_reachable [Limits] (program : List Stmt)
    (hsize : (assemble program).code.size ≤ 10 ^ Decimal.integerDigitLimit) :
    (∀ n s, Steps (assemble program).code n {} s →
      ∃ (k : Nat) (i : Instruction), s.counter = k ∧ (assemble program).code[k]? = some i ∧
        s.stack.length = heightAt (assemble program).code.toList k ∧
        (i.opcode = .halt ↔ k + 1 = (assemble program).code.size) ∧
        ∀ f s', Fails (assemble program).code s f s' → f.isStructural = false) ∧
    (∀ k ∈ Stmt.landmarks program 0, k < (assemble program).code.size ∧
      heightAt (assemble program).code.toList k = 0) ∧
    (assemble program).code.size - 1 ∈ Stmt.landmarks program 0 ∧
    (∀ i ∈ (assemble program).code, i.opcode.isJump = true →
      ∃ t ∈ Stmt.landmarks program 0, i.operand = some (toString t)) ∧
    ∀ n, match (run (assemble program).code n {}).1 with
      | .halted | .outOfSteps => True
      | .failed e => e.fault.isStructural = false
      | .leftProgram | .lost => False := by
  rw [assemble_code] at hsize ⊢
  rw [List.size_toArray] at hsize
  have hpos : 0 < (programLayout program).length := by simp [programLayout]
  have hstart : ∃ k i, AtHeight (programLayout program) {} k i := exists_atHeight hpos rfl rfl
  refine ⟨fun n s hsteps => ?_, fun k hk => ?_, ?_, fun i hi hop => ?_, AtHeight.run hsize hstart⟩
  · obtain ⟨k, i, h⟩ := height_of_steps hsize hstart hsteps
    exact ⟨k, i, h.counter, by rw [List.getElem?_toArray]; exact h.instruction, h.height,
      halt_iff hsize h.instruction, fun f s' hfails => h.fails hsize hfails⟩
  · exact heightAt_landmark hsize hk
  · have h := Stmt.end_mem_landmarks program 0
    simpa [programLayout] using h
  · exact jump_to_landmark hsize (List.mem_toArray.1 hi) hop

/-- A loop that prints an array for ever: the stack is empty at the start of the loop, of its body,
of the jump back and at the halt, though on the way an array and its element have been there. -/
theorem height_of_reachable_loop :
    let program : List Stmt := [.whileLoop (.literal (.bool true) 1)
      [.print (.array [.literal .null 2] 2) 2] 1 1]
    (assemble program).code.size ≤ 10 ^ Decimal.integerDigitLimit ∧
      Stmt.landmarks program 0 = [0, 2, 5, 6] ∧
      ∀ k ∈ [0, 2, 5, 6], heightAt (assemble program).code.toList k = 0 := by
  intro program
  have hsize : (assemble program).code.size ≤ 10 ^ Decimal.integerDigitLimit := by
    rw [assemble_code]
    exact le_digitLimit (by decide)
  exact ⟨hsize, rfl, fun k hk => ((@height_of_reachable ⟨20, 20⟩ program hsize).2.1 k hk).2⟩

end Scriptlet
