import Mathlib
import Scriptlet.Proofs.Composition

/-!
# Other names and other lines

Two kinds of labels hang on a tree: the names of its variables and the lines of its nodes.  A
*relabeling* replaces both, and leaves the shape of the tree, its operators and its constants alone.
This file follows a relabeling through the two readers of a tree.  Code keeps names, as the operands
of three opcodes, and no lines; the check of declarations keeps both, in its violations, and
compares names only with each other.

## What is here

* `Relabeling` — other names and other lines; `Expr.relabel`, `Stmt.relabel` — the tree with them.
* `Instruction.rename` — an instruction with another name in it, if it has one.
* `assemble_relabel` — **the code of a relabeled program is the renamed code**.
* `Scope.check_relabel` — **the violations of a relabeled program are the relabeled violations**, as
  long as different names stay different.
-/

set_option autoImplicit false
namespace Scriptlet

/-- Other names for the variables of a tree and other lines for its nodes. -/
structure Relabeling where
  name : String → String := id
  line : Int → Int := id

/-! ## Trees -/

mutual

/-- The expression with other names and lines. -/
def Expr.relabel (r : Relabeling) : Expr → Expr
  | .literal value line => .literal value (r.line line)
  | .variable name line => .variable (r.name name) (r.line line)
  | .unary op operand line => .unary op (operand.relabel r) (r.line line)
  | .binary left op right line => .binary (left.relabel r) op (right.relabel r) (r.line line)
  | .array elements line => .array (Expr.relabelAll r elements) (r.line line)
  | .element name index line => .element (r.name name) (index.relabel r) (r.line line)

/-- The expressions with other names and lines. -/
def Expr.relabelAll (r : Relabeling) : List Expr → List Expr
  | [] => []
  | e :: es => e.relabel r :: Expr.relabelAll r es

end

/-- The binding with another name and line. -/
def Binding.relabel (r : Relabeling) (b : Binding) : Binding :=
  ⟨r.name b.name, b.value.relabel r, r.line b.line⟩

/-- The first clause with other names and lines. -/
def ForInit.relabel (r : Relabeling) : ForInit → ForInit
  | .declare b => .declare (b.relabel r)
  | .assign b => .assign (b.relabel r)

/-- The clauses with other names and lines. -/
def ForClauses.relabel (r : Relabeling) (c : ForClauses) : ForClauses :=
  ⟨c.init.map (ForInit.relabel r), c.condition.map (Expr.relabel r),
    c.increment.map (Binding.relabel r)⟩

mutual

/-- The statement with other names and lines. -/
def Stmt.relabel (r : Relabeling) : Stmt → Stmt
  | .declare b => .declare (b.relabel r)
  | .assign b => .assign (b.relabel r)
  | .assignElement name index value line =>
    .assignElement (r.name name) (index.relabel r) (value.relabel r) (r.line line)
  | .print value line => .print (value.relabel r) (r.line line)
  | .block body line => .block (Stmt.relabelAll r body) (r.line line)
  | .ifThen condition body bodyLine line =>
    .ifThen (condition.relabel r) (Stmt.relabelAll r body) (r.line bodyLine) (r.line line)
  | .ifElse condition body bodyLine otherwise otherwiseLine line =>
    .ifElse (condition.relabel r) (Stmt.relabelAll r body) (r.line bodyLine)
      (Stmt.relabelAll r otherwise) (r.line otherwiseLine) (r.line line)
  | .whileLoop condition body bodyLine line =>
    .whileLoop (condition.relabel r) (Stmt.relabelAll r body) (r.line bodyLine) (r.line line)
  | .forLoop clauses body bodyLine line =>
    .forLoop (clauses.relabel r) (Stmt.relabelAll r body) (r.line bodyLine) (r.line line)

/-- The statements with other names and lines. -/
def Stmt.relabelAll (r : Relabeling) : List Stmt → List Stmt
  | [] => []
  | s :: ss => s.relabel r :: Stmt.relabelAll r ss

end

section

variable (r : Relabeling)

theorem Expr.relabelAll_eq_map (es : List Expr) :
    Expr.relabelAll r es = es.map (Expr.relabel r) := by
  induction es with
  | nil => simp [Expr.relabelAll]
  | cons e es ih => simp [Expr.relabelAll, ih]

theorem Stmt.relabelAll_eq_map (ss : List Stmt) :
    Stmt.relabelAll r ss = ss.map (Stmt.relabel r) := by
  induction ss with
  | nil => simp [Stmt.relabelAll]
  | cons s ss ih => simp [Stmt.relabelAll, ih]

end

/-! ## Code -/

/-- The instruction with another name, if its operand is one. -/
def Instruction.rename (f : String → String) (i : Instruction) : Instruction :=
  if i.opcode.takesName then { i with operand := i.operand.map f } else i

theorem Instruction.rename_of_not_takesName {i : Instruction} (h : i.opcode.takesName = false)
    (f : String → String) : i.rename f = i := by
  simp [rename, h]

@[simp] theorem Instruction.rename_opcode (f : String → String) (i : Instruction) :
    (i.rename f).opcode = i.opcode := by
  unfold rename
  split <;> rfl

section

variable (r : Relabeling)

theorem Literal.code_rename (f : String → String) (v : Literal) : v.code.rename f = v.code := by
  cases v <;> rfl

mutual

theorem Expr.code_relabel (e : Expr) :
    (e.relabel r).code = e.code.map (Instruction.rename r.name) := by
  cases e with
  | literal value line => simp [Expr.relabel, Expr.code, value.code_rename]
  | «variable» name line => simp [Expr.relabel, Expr.code, Instruction.rename, Opcode.takesName]
  | unary op operand line =>
    simp [Expr.relabel, Expr.code, operand.code_relabel, Instruction.rename, Opcode.takesName]
  | binary left op right line =>
    simp [Expr.relabel, Expr.code, left.code_relabel, right.code_relabel, Instruction.rename,
      Opcode.takesName]
  | array elements line =>
    have hlength : (Expr.relabelAll r elements).length = elements.length := by
      rw [Expr.relabelAll_eq_map, List.length_map]
    simp [Expr.relabel, Expr.code, Expr.codeAll_relabelAll elements, hlength, Instruction.rename,
      Opcode.takesName]
  | element name index line =>
    simp [Expr.relabel, Expr.code, index.code_relabel, Instruction.rename, Opcode.takesName]

theorem Expr.codeAll_relabelAll (es : List Expr) :
    Expr.codeAll (Expr.relabelAll r es) = (Expr.codeAll es).map (Instruction.rename r.name) := by
  cases es with
  | nil => simp [Expr.relabelAll, Expr.codeAll]
  | cons e es => simp [Expr.relabelAll, Expr.codeAll, e.code_relabel, Expr.codeAll_relabelAll es]

end

theorem Binding.code_relabel (b : Binding) :
    (b.relabel r).code = b.code.map (Instruction.rename r.name) := by
  simp [Binding.code, Binding.relabel, Expr.code_relabel, Instruction.rename, Opcode.takesName]

theorem ForInit.code_relabel (i : ForInit) :
    (i.relabel r).code = i.code.map (Instruction.rename r.name) := by
  cases i with
  | declare b => exact b.code_relabel r
  | assign b => exact b.code_relabel r

theorem optionalCode_relabel {α : Type} {code : α → List Instruction} {f : α → α}
    (h : ∀ a, code (f a) = (code a).map (Instruction.rename r.name)) (o : Option α) :
    optionalCode code (o.map f) = (optionalCode code o).map (Instruction.rename r.name) := by
  cases o with
  | none => rfl
  | some a => exact h a

theorem ForClauses.conditionCode_relabel (c : ForClauses) :
    (c.relabel r).conditionCode = c.conditionCode.map (Instruction.rename r.name) := by
  obtain ⟨init, condition, increment⟩ := c
  cases condition with
  | none => rfl
  | some e => exact e.code_relabel r

@[simp] theorem rename_jump (f : String → String) (t : Nat) :
    (jumpTo .jump t).rename f = jumpTo .jump t := rfl

@[simp] theorem rename_jumpIfFalse (f : String → String) (t : Nat) :
    (jumpTo .jumpIfFalse t).rename f = jumpTo .jumpIfFalse t := rfl

theorem loopLayout_relabel (f : String → String) (condition : List Instruction)
    {body body' : Nat → List Instruction} (h : ∀ k, body' k = (body k).map (Instruction.rename f))
    (k : Nat) : loopLayout (condition.map (Instruction.rename f)) body' k =
      (loopLayout condition body k).map (Instruction.rename f) := by
  simp [loopLayout, h]

mutual

theorem Stmt.layout_relabel (s : Stmt) (k : Nat) :
    (s.relabel r).layout k = (s.layout k).map (Instruction.rename r.name) := by
  cases s with
  | declare b => simp [Stmt.relabel, Stmt.layout, b.code_relabel]
  | assign b => simp [Stmt.relabel, Stmt.layout, b.code_relabel]
  | assignElement name index value line =>
    simp [Stmt.relabel, Stmt.layout, index.code_relabel, value.code_relabel, Instruction.rename,
      Opcode.takesName]
  | print value line =>
    simp [Stmt.relabel, Stmt.layout, value.code_relabel, Instruction.rename, Opcode.takesName]
  | block body line => simp [Stmt.relabel, Stmt.layout, Stmt.layoutAll_relabelAll body]
  | ifThen condition body bodyLine line =>
    simp [Stmt.relabel, Stmt.layout, condition.code_relabel, Stmt.layoutAll_relabelAll body]
  | ifElse condition body bodyLine otherwise otherwiseLine line =>
    simp [Stmt.relabel, Stmt.layout, condition.code_relabel, Stmt.layoutAll_relabelAll body,
      Stmt.layoutAll_relabelAll otherwise]
  | whileLoop condition body bodyLine line =>
    simp only [Stmt.relabel, Stmt.layout, condition.code_relabel]
    exact loopLayout_relabel r.name _ (Stmt.layoutAll_relabelAll body) k
  | forLoop clauses body bodyLine line =>
    have hinit : optionalCode ForInit.code (clauses.relabel r).init =
        (optionalCode ForInit.code clauses.init).map (Instruction.rename r.name) :=
      optionalCode_relabel r (ForInit.code_relabel r) _
    have hincrement : optionalCode Binding.code (clauses.relabel r).increment =
        (optionalCode Binding.code clauses.increment).map (Instruction.rename r.name) :=
      optionalCode_relabel r (Binding.code_relabel r) _
    have hbody (i : Nat) : Stmt.layoutAll (Stmt.relabelAll r body) i ++
        (optionalCode Binding.code clauses.increment).map (Instruction.rename r.name) =
          (Stmt.layoutAll body i ++ optionalCode Binding.code clauses.increment).map
            (Instruction.rename r.name) := by
      rw [Stmt.layoutAll_relabelAll body, List.map_append]
    simp only [Stmt.relabel, Stmt.layout, clauses.conditionCode_relabel, hinit, hincrement,
      List.length_map, List.map_append]
    exact congrArg _ (loopLayout_relabel r.name _ hbody _)

theorem Stmt.layoutAll_relabelAll (ss : List Stmt) (k : Nat) :
    Stmt.layoutAll (Stmt.relabelAll r ss) k =
      (Stmt.layoutAll ss k).map (Instruction.rename r.name) := by
  cases ss with
  | nil => simp [Stmt.relabelAll, Stmt.layoutAll]
  | cons s ss =>
    simp [Stmt.relabelAll, Stmt.layoutAll, s.layout_relabel, Stmt.layoutAll_relabelAll ss]

end

/-- **The code of a relabeled program is the renamed code**: every name in it is replaced, and
nothing else is changed. -/
theorem assemble_relabel (program : List Stmt) :
    (assemble (program.map (Stmt.relabel r))).code =
      (assemble program).code.map (Instruction.rename r.name) := by
  rw [assemble_code, assemble_code, programLayout, programLayout, ← Stmt.relabelAll_eq_map,
    Stmt.layoutAll_relabelAll]
  simp [Instruction.rename, Opcode.takesName]

end

/-! ## Declarations -/

/-- The event with another name and line. -/
def Event.relabel (r : Relabeling) : Event → Event
  | .use name line => .use (r.name name) (r.line line)
  | .declare name line => .declare (r.name name) (r.line line)

/-- The violation with another name and line. -/
def Violation.relabel (r : Relabeling) : Violation → Violation
  | .usedBeforeDeclaration name line => .usedBeforeDeclaration (r.name name) (r.line line)
  | .alreadyDeclared name line => .alreadyDeclared (r.name name) (r.line line)

/-- The scope with other names and lines. -/
def Scope.relabel (r : Relabeling) (s : Scope) : Scope :=
  ⟨s.declared.map r.name, s.violations.map (Violation.relabel r)⟩

section

variable (r : Relabeling)

mutual

theorem Expr.events_relabel (e : Expr) : (e.relabel r).events = e.events.map (Event.relabel r) := by
  cases e with
  | literal value line => simp [Expr.relabel, Expr.events]
  | «variable» name line => simp [Expr.relabel, Expr.events, Event.relabel]
  | unary op operand line => simp [Expr.relabel, Expr.events, operand.events_relabel]
  | binary left op right line =>
    simp [Expr.relabel, Expr.events, left.events_relabel, right.events_relabel]
  | array elements line => simp [Expr.relabel, Expr.events, Expr.eventsAll_relabelAll elements]
  | element name index line =>
    simp [Expr.relabel, Expr.events, Event.relabel, index.events_relabel]

theorem Expr.eventsAll_relabelAll (es : List Expr) :
    Expr.eventsAll (Expr.relabelAll r es) = (Expr.eventsAll es).map (Event.relabel r) := by
  cases es with
  | nil => simp [Expr.relabelAll, Expr.eventsAll]
  | cons e es =>
    simp [Expr.relabelAll, Expr.eventsAll, e.events_relabel, Expr.eventsAll_relabelAll es]

end

theorem Binding.declarationEvents_relabel (b : Binding) :
    (b.relabel r).declarationEvents = b.declarationEvents.map (Event.relabel r) := by
  simp [Binding.declarationEvents, Binding.relabel, Expr.events_relabel, Event.relabel]

theorem Binding.assignmentEvents_relabel (b : Binding) :
    (b.relabel r).assignmentEvents = b.assignmentEvents.map (Event.relabel r) := by
  simp [Binding.assignmentEvents, Binding.relabel, Expr.events_relabel, Event.relabel]

theorem ForInit.events_relabel (i : ForInit) :
    (i.relabel r).events = i.events.map (Event.relabel r) := by
  cases i with
  | declare b => exact b.declarationEvents_relabel r
  | assign b => exact b.assignmentEvents_relabel r

theorem optionalEvents_relabel {α : Type} {events : α → List Event} {f : α → α}
    (h : ∀ a, events (f a) = (events a).map (Event.relabel r)) (o : Option α) :
    optionalEvents events (o.map f) = (optionalEvents events o).map (Event.relabel r) := by
  cases o with
  | none => rfl
  | some a => exact h a

theorem ForClauses.events_relabel (c : ForClauses) :
    (c.relabel r).events = c.events.map (Event.relabel r) := by
  simp only [ForClauses.events, ForClauses.relabel, List.map_append,
    optionalEvents_relabel r (ForInit.events_relabel r),
    optionalEvents_relabel r (Expr.events_relabel r),
    optionalEvents_relabel r (Binding.assignmentEvents_relabel r)]

mutual

theorem Stmt.events_relabel (s : Stmt) : (s.relabel r).events = s.events.map (Event.relabel r) := by
  cases s with
  | declare b => simp [Stmt.relabel, Stmt.events, b.declarationEvents_relabel]
  | assign b => simp [Stmt.relabel, Stmt.events, b.assignmentEvents_relabel]
  | assignElement name index value line =>
    simp [Stmt.relabel, Stmt.events, Event.relabel, index.events_relabel, value.events_relabel]
  | print value line => simp [Stmt.relabel, Stmt.events, value.events_relabel]
  | block body line => simp [Stmt.relabel, Stmt.events, Stmt.eventsAll_relabelAll body]
  | ifThen condition body bodyLine line =>
    simp [Stmt.relabel, Stmt.events, condition.events_relabel, Stmt.eventsAll_relabelAll body]
  | ifElse condition body bodyLine otherwise otherwiseLine line =>
    simp [Stmt.relabel, Stmt.events, condition.events_relabel, Stmt.eventsAll_relabelAll body,
      Stmt.eventsAll_relabelAll otherwise]
  | whileLoop condition body bodyLine line =>
    simp [Stmt.relabel, Stmt.events, condition.events_relabel, Stmt.eventsAll_relabelAll body]
  | forLoop clauses body bodyLine line =>
    simp [Stmt.relabel, Stmt.events, clauses.events_relabel, Stmt.eventsAll_relabelAll body]

theorem Stmt.eventsAll_relabelAll (ss : List Stmt) :
    Stmt.eventsAll (Stmt.relabelAll r ss) = (Stmt.eventsAll ss).map (Event.relabel r) := by
  cases ss with
  | nil => simp [Stmt.relabelAll, Stmt.eventsAll]
  | cons s ss =>
    simp [Stmt.relabelAll, Stmt.eventsAll, s.events_relabel, Stmt.eventsAll_relabelAll ss]

end

variable {r}

/-- One event has the same effect under other labels: the only thing that matters about a name is
whether it is among those declared. -/
theorem Scope.observe_relabel (hr : Function.Injective r.name) (s : Scope) (e : Event) :
    (s.relabel r).observe (e.relabel r) = (s.observe e).relabel r := by
  have hmem (name : String) : r.name name ∈ s.declared.map r.name ↔ name ∈ s.declared :=
    List.mem_map_of_injective hr
  cases e with
  | use name line =>
    by_cases h : name ∈ s.declared <;>
      simp [Scope.observe, Scope.relabel, Event.relabel, Violation.relabel, hmem, h]
  | declare name line =>
    by_cases h : name ∈ s.declared <;>
      simp [Scope.observe, Scope.relabel, Event.relabel, Violation.relabel, hmem, h]

/-- **The check of declarations finds the same violations** under other labels, as long as different
names stay different. -/
theorem Scope.check_relabel (hr : Function.Injective r.name) (s : Scope) (program : List Stmt) :
    (s.relabel r).check (program.map (Stmt.relabel r)) = (s.check program).relabel r := by
  rw [check_eq_foldl, check_eq_foldl, ← Stmt.relabelAll_eq_map, Stmt.eventsAll_relabelAll]
  generalize Stmt.eventsAll program = es
  induction es generalizing s with
  | nil => rfl
  | cons e es ih => rw [List.map_cons, List.foldl_cons, List.foldl_cons, observe_relabel hr, ih]

end

end Scriptlet
