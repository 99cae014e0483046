import Scriptlet.Proofs.Declaration
import Scriptlet.Proofs.Layout

/-!
# What assembled code is made of

Assembling adds little of its own: each instruction is a constant of the tree, has a name of the
tree as its operand, or is a jump, a count of elements or an operation without an operand.  The one
exception is the condition of a loop that has none.  In the other direction, no constant of the tree
is left out.

## What is here

* `Stmt.literals` — the constants of a tree, in the order of its events.
* `Origin es vs i` — **where an instruction comes from**: the names of the events `es`, the
  constants `vs`, or neither.
* `Stmt.madeOf_layout` — every instruction of the code of a statement has an origin in it.
* `Stmt.code_mem_layout` — every constant of a statement is in its code.
-/

set_option autoImplicit false
namespace Scriptlet

/-! ## The constants of a tree -/

mutual

/-- The constants of an expression, from left to right. -/
def Expr.literals : Expr → List Literal
  | .literal v _ => [v]
  | .variable _ _ => []
  | .unary _ operand _ => operand.literals
  | .binary left _ right _ => left.literals ++ right.literals
  | .array elements _ => Expr.literalsAll elements
  | .element _ index _ => index.literals

/-- The constants of some expressions. -/
def Expr.literalsAll : List Expr → List Literal
  | [] => []
  | e :: es => e.literals ++ Expr.literalsAll es

end

/-- The constants of the first clause of a `for` loop. -/
def ForInit.literals : ForInit → List Literal
  | .declare b | .assign b => b.value.literals

/-- The constants of a part that may be missing. -/
def optionalLiterals {α : Type} (literals : α → List Literal) : Option α → List Literal
  | none => []
  | some a => literals a

/-- The constants of the clauses of a `for` loop. -/
def ForClauses.literals (c : ForClauses) : List Literal :=
  optionalLiterals ForInit.literals c.init ++ optionalLiterals Expr.literals c.condition ++
    optionalLiterals (fun b => b.value.literals) c.increment

mutual

/-- The constants of a statement. -/
def Stmt.literals : Stmt → List Literal
  | .declare b | .assign b => b.value.literals
  | .assignElement _ index value _ => index.literals ++ value.literals
  | .print value _ => value.literals
  | .block body _ => Stmt.literalsAll body
  | .ifThen condition body _ _ => condition.literals ++ Stmt.literalsAll body
  | .ifElse condition body _ otherwise _ _ =>
    condition.literals ++ Stmt.literalsAll body ++ Stmt.literalsAll otherwise
  | .whileLoop condition body _ _ => condition.literals ++ Stmt.literalsAll body
  | .forLoop clauses body _ _ => clauses.literals ++ Stmt.literalsAll body

/-- The constants of some statements. -/
def Stmt.literalsAll : List Stmt → List Literal
  | [] => []
  | s :: ss => s.literals ++ Stmt.literalsAll ss

end

/-! ## Origins -/

/-- Whether the operand of an opcode is the name of a variable. -/
def Opcode.takesName : Opcode → Bool
  | .load | .store | .storeElement => true
  | _ => false

theorem Opcode.takesOperand_of_takesName {op : Opcode} (h : op.takesName = true) :
    op.takesOperand = true := by
  cases op <;> simp_all [Opcode.takesName, Opcode.takesOperand]

theorem Opcode.isJump_of_takesName {op : Opcode} (h : op.takesName = true) : op.isJump = false := by
  cases op <;> simp_all [Opcode.takesName, Opcode.isJump]

theorem Opcode.takesOperand_of_isJump {op : Opcode} (h : op.isJump = true) :
    op.takesOperand = true := by
  cases op <;> simp_all [Opcode.isJump, Opcode.takesOperand]

/-- Where an instruction comes from, given the events and the constants of a tree. -/
inductive Origin (es : List Event) (vs : List Literal) : Instruction → Prop where
  | literal {v : Literal} (hv : v ∈ vs) : Origin es vs v.code
  | always : Origin es vs ⟨.constBool, some "true"⟩
  | name {op : Opcode} {e : Event} (hop : op.takesName = true) (he : e ∈ es) :
      Origin es vs ⟨op, some e.name⟩
  | jump {op : Opcode} (hop : op.isJump = true) (t : Nat) : Origin es vs (jumpTo op t)
  | count (n : Nat) : Origin es vs ⟨.makeArray, some (toString n)⟩
  | plain {op : Opcode} (hop : op.takesOperand = false) : Origin es vs ⟨op, none⟩

/-- The names in code are names of events. -/
theorem Origin.exists_of_takesName {es : List Event} {vs : List Literal} {i : Instruction}
    (h : Origin es vs i) (hop : i.opcode.takesName = true) : ∃ e ∈ es, i.operand = some e.name := by
  cases h with
  | @literal v _ => cases v <;> exact nomatch hop
  | always => exact nomatch hop
  | name _ he => exact ⟨_, he, rfl⟩
  | jump hjump t => exact nomatch hjump.symm.trans (Opcode.isJump_of_takesName hop)
  | count n => exact nomatch hop
  | plain hplain => exact nomatch hplain.symm.trans (Opcode.takesOperand_of_takesName hop)

/-- Each instruction of some code comes from the events and the constants. -/
def MadeOf (es : List Event) (vs : List Literal) (code : List Instruction) : Prop :=
  ∀ i ∈ code, Origin es vs i

namespace MadeOf

variable {es fs : List Event} {vs ws : List Literal} {xs ys : List Instruction} {i : Instruction}
  {e : Event} {op : Opcode}

theorem nil : MadeOf es vs [] :=
  fun _ h => absurd h List.not_mem_nil

theorem cons (hi : Origin es vs i) (hx : MadeOf es vs xs) : MadeOf es vs (i :: xs) :=
  List.forall_mem_cons.2 ⟨hi, hx⟩

theorem single (hi : Origin es vs i) : MadeOf es vs [i] :=
  cons hi nil

theorem append (hx : MadeOf es vs xs) (hy : MadeOf es vs ys) : MadeOf es vs (xs ++ ys) :=
  fun i hi => (List.mem_append.1 hi).elim (hx i) (hy i)

theorem mono (h : MadeOf es vs xs) (hes : es ⊆ fs) (hvs : vs ⊆ ws) : MadeOf fs ws xs := by
  intro i hi
  cases h i hi with
  | literal hv => exact .literal (hvs hv)
  | always => exact .always
  | name hop he => exact .name hop (hes he)
  | jump hop t => exact .jump hop t
  | count n => exact .count n
  | plain hop => exact .plain hop

theorem left (h : MadeOf es vs xs) : MadeOf (es ++ fs) (vs ++ ws) xs :=
  h.mono (List.subset_append_left es fs) (List.subset_append_left vs ws)

theorem right (h : MadeOf fs ws xs) : MadeOf (es ++ fs) (vs ++ ws) xs :=
  h.mono (List.subset_append_right es fs) (List.subset_append_right vs ws)

theorem tail (h : MadeOf es vs xs) : MadeOf (e :: es) vs xs :=
  h.mono (List.subset_cons_self e es) (List.Subset.refl vs)

theorem loop {cond : List Instruction} {f : Nat → List Instruction} {k : Nat}
    (hcond : MadeOf es vs cond) (hbody : ∀ i, MadeOf es vs (f i)) :
    MadeOf es vs (loopLayout cond f k) :=
  hcond.append (.cons (.jump rfl _) ((hbody _).append (.single (.jump rfl _))))

end MadeOf

mutual

theorem Expr.madeOf_code : ∀ e : Expr, MadeOf e.events e.literals e.code
  | .literal _ _ => .single (.literal List.mem_cons_self)
  | .variable name line => .single (.name (e := .use name line) rfl List.mem_cons_self)
  | .unary _ e _ => e.madeOf_code.append (.single (.plain rfl))
  | .binary l _ r _ => (l.madeOf_code.left.append r.madeOf_code.right).append (.single (.plain rfl))
  | .array es _ => (Expr.madeOf_codeAll es).append (.single (.count es.length))
  | .element name i line => .cons (.name (e := .use name line) rfl List.mem_cons_self)
      (i.madeOf_code.tail.append (.single (.plain rfl)))

theorem Expr.madeOf_codeAll :
    ∀ es : List Expr, MadeOf (Expr.eventsAll es) (Expr.literalsAll es) (Expr.codeAll es)
  | [] => .nil
  | e :: es => e.madeOf_code.left.append (Expr.madeOf_codeAll es).right

end

theorem Binding.madeOf_declaration (b : Binding) :
    MadeOf b.declarationEvents b.value.literals b.code :=
  (b.value.madeOf_code.mono (List.subset_append_left _ _) (List.Subset.refl _)).append
    (.single (.name (e := .declare b.name b.line) rfl
      (List.mem_append_right _ (List.mem_singleton_self _))))

theorem Binding.madeOf_assignment (b : Binding) :
    MadeOf b.assignmentEvents b.value.literals b.code :=
  b.value.madeOf_code.tail.append
    (.single (.name (e := .use b.name b.line) rfl List.mem_cons_self))

theorem ForInit.madeOf_code (i : ForInit) : MadeOf i.events i.literals i.code := by
  cases i with
  | declare b => exact b.madeOf_declaration
  | assign b => exact b.madeOf_assignment

theorem madeOf_optionalCode {α : Type} {events : α → List Event} {literals : α → List Literal}
    {code : α → List Instruction} (h : ∀ a, MadeOf (events a) (literals a) (code a))
    (o : Option α) :
    MadeOf (optionalEvents events o) (optionalLiterals literals o) (optionalCode code o) := by
  cases o with
  | none => exact .nil
  | some a => exact h a

theorem ForClauses.madeOf_conditionCode (c : ForClauses) :
    MadeOf (optionalEvents Expr.events c.condition) (optionalLiterals Expr.literals c.condition)
      c.conditionCode := by
  rw [ForClauses.conditionCode]
  cases c.condition with
  | none => exact .single .always
  | some e => exact e.madeOf_code

mutual

/-- **Every instruction of the code of a statement has an origin in the statement.** -/
theorem Stmt.madeOf_layout : ∀ (s : Stmt) (k : Nat), MadeOf s.events s.literals (s.layout k)
  | .declare b, _ => b.madeOf_declaration
  | .assign b, _ => b.madeOf_assignment
  | .assignElement name i v line, _ =>
    (v.madeOf_code.right.append i.madeOf_code.left).tail.append
      (.single (.name (e := .use name line) rfl List.mem_cons_self))
  | .print v _, _ => v.madeOf_code.append (.single (.plain rfl))
  | .block body _, k => Stmt.madeOf_layoutAll body k
  | .ifThen c body _ _, _ =>
    c.madeOf_code.left.append (.cons (.jump rfl _) (Stmt.madeOf_layoutAll body _).right)
  | .ifElse c body _ otherwise _ _, _ =>
    c.madeOf_code.left.left.append
      (.cons (.jump rfl _) ((Stmt.madeOf_layoutAll body _).right.left.append
        (.cons (.jump rfl _) (Stmt.madeOf_layoutAll otherwise _).right)))
  | .whileLoop c body _ _, _ =>
    .loop c.madeOf_code.left fun i => (Stmt.madeOf_layoutAll body i).right
  | .forLoop c body _ _, _ =>
    (madeOf_optionalCode ForInit.madeOf_code c.init).left.left.left.append
      (.loop c.madeOf_conditionCode.right.left.left fun i =>
        (Stmt.madeOf_layoutAll body i).right.append
          (madeOf_optionalCode Binding.madeOf_assignment c.increment).right.left)

theorem Stmt.madeOf_layoutAll : ∀ (ss : List Stmt) (k : Nat),
    MadeOf (Stmt.eventsAll ss) (Stmt.literalsAll ss) (Stmt.layoutAll ss k)
  | [], _ => .nil
  | s :: ss, k => (s.madeOf_layout k).left.append (Stmt.madeOf_layoutAll ss _).right

end

theorem madeOf_assemble (program : List Stmt) :
    MadeOf (Stmt.eventsAll program) (Stmt.literalsAll program) (assemble program).code.toList := by
  rw [assemble_code, List.toList_toArray, programLayout]
  exact (Stmt.madeOf_layoutAll program 0).append (.single (.plain rfl))

/-! ## No constant is left out -/

section Literals

variable {v : Literal}

mutual

theorem Expr.code_mem_code : ∀ e : Expr, v ∈ e.literals → v.code ∈ e.code
  | .literal _ _, h => List.mem_singleton.2 (congrArg Literal.code (List.mem_singleton.1 h))
  | .variable _ _, h => absurd h List.not_mem_nil
  | .unary _ e _, h => List.mem_append_left _ (e.code_mem_code h)
  | .binary l _ r _, h => List.mem_append_left _ (List.mem_append.2
      ((List.mem_append.1 h).imp l.code_mem_code r.code_mem_code))
  | .array es _, h => List.mem_append_left _ (Expr.code_mem_codeAll es h)
  | .element _ i _, h => List.mem_cons_of_mem _ (List.mem_append_left _ (i.code_mem_code h))

theorem Expr.code_mem_codeAll : ∀ es : List Expr, v ∈ Expr.literalsAll es → v.code ∈ Expr.codeAll es
  | [], h => absurd h List.not_mem_nil
  | e :: es, h => List.mem_append.2
      ((List.mem_append.1 h).imp e.code_mem_code (Expr.code_mem_codeAll es))

end

theorem Binding.code_mem_code (b : Binding) (h : v ∈ b.value.literals) : v.code ∈ b.code :=
  List.mem_append_left _ (b.value.code_mem_code h)

theorem ForInit.code_mem_code (i : ForInit) (h : v ∈ i.literals) : v.code ∈ i.code := by
  cases i with
  | declare b => exact b.code_mem_code h
  | assign b => exact b.code_mem_code h

theorem code_mem_optionalCode {α : Type} {literals : α → List Literal}
    {code : α → List Instruction} (hcode : ∀ a, v ∈ literals a → v.code ∈ code a) {o : Option α}
    (h : v ∈ optionalLiterals literals o) : v.code ∈ optionalCode code o := by
  cases o with
  | none => exact absurd h List.not_mem_nil
  | some a => exact hcode a h

theorem ForClauses.code_mem_conditionCode (c : ForClauses)
    (h : v ∈ optionalLiterals Expr.literals c.condition) : v.code ∈ c.conditionCode := by
  rw [ForClauses.conditionCode]
  cases hc : c.condition with
  | none =>
    rw [hc] at h
    exact absurd h List.not_mem_nil
  | some e =>
    rw [hc] at h
    exact e.code_mem_code h

theorem mem_loopLayout {i : Instruction} {cond : List Instruction} {f : Nat → List Instruction}
    {k : Nat} (h : i ∈ cond ∨ ∀ k, i ∈ f k) : i ∈ loopLayout cond f k := by
  rw [loopLayout, List.mem_append, List.mem_cons, List.mem_append]
  exact h.imp_right fun hbody => .inr (.inl (hbody _))

mutual

/-- **Every constant of a statement is in its code.** -/
theorem Stmt.code_mem_layout : ∀ (s : Stmt) (k : Nat), v ∈ s.literals → v.code ∈ s.layout k
  | .declare b, _, h => b.code_mem_code h
  | .assign b, _, h => b.code_mem_code h
  | .assignElement _ i e _, _, h => List.mem_append_left _ (List.mem_append.2
      ((List.mem_append.1 h).symm.imp e.code_mem_code i.code_mem_code))
  | .print e _, _, h => List.mem_append_left _ (e.code_mem_code h)
  | .block body _, k, h => Stmt.code_mem_layoutAll body k h
  | .ifThen c body _ _, _, h => List.mem_append.2 ((List.mem_append.1 h).imp c.code_mem_code
      fun h => List.mem_cons_of_mem _ (Stmt.code_mem_layoutAll body _ h))
  | .ifElse c body _ otherwise _ _, _, h => by
    rw [Stmt.literals, List.mem_append, List.mem_append] at h
    rw [Stmt.layout, List.mem_append, List.mem_cons, List.mem_append, List.mem_cons]
    rcases h with (h | h) | h
    · exact .inl (c.code_mem_code h)
    · exact .inr (.inr (.inl (Stmt.code_mem_layoutAll body _ h)))
    · exact .inr (.inr (.inr (.inr (Stmt.code_mem_layoutAll otherwise _ h))))
  | .whileLoop c body _ _, _, h => mem_loopLayout ((List.mem_append.1 h).imp c.code_mem_code
      fun h k => Stmt.code_mem_layoutAll body k h)
  | .forLoop c body _ _, _, h => by
    simp only [Stmt.literals, ForClauses.literals, List.mem_append] at h
    rw [Stmt.layout, List.mem_append]
    rcases h with ((h | h) | h) | h
    · exact .inl (code_mem_optionalCode ForInit.code_mem_code h)
    · exact .inr (mem_loopLayout (.inl (c.code_mem_conditionCode h)))
    · exact .inr (mem_loopLayout (.inr fun k =>
        List.mem_append_right _ (code_mem_optionalCode Binding.code_mem_code h)))
    · exact .inr (mem_loopLayout (.inr fun k =>
        List.mem_append_left _ (Stmt.code_mem_layoutAll body k h)))

theorem Stmt.code_mem_layoutAll : ∀ (ss : List Stmt) (k : Nat),
    v ∈ Stmt.literalsAll ss → v.code ∈ Stmt.layoutAll ss k
  | [], _, h => absurd h List.not_mem_nil
  | s :: ss, k, h => List.mem_append.2
      ((List.mem_append.1 h).imp (s.code_mem_layout k) (Stmt.code_mem_layoutAll ss _))

end

theorem code_mem_assemble {program : List Stmt} (h : v ∈ Stmt.literalsAll program) :
    v.code ∈ (assemble program).code.toList := by
  rw [assemble_code, List.toList_toArray, programLayout]
  exact List.mem_append_left _ (Stmt.code_mem_layoutAll program 0 h)

end Literals

end Scriptlet
