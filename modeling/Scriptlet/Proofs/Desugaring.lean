import Scriptlet.Proofs.Layout

/-!
# A `for` loop is a `while` loop

A `for` loop is its first clause and then a `while` loop whose body ends with the third clause; a
missing condition is true.  Here the loops of a tree are written that way, all of them at once and
however they are nested, and the tree with `while` loops only is assembled exactly as the tree that
it was made from: into the same instructions at the same indexes, by the same patches.

## What is here

* `Stmt.desugar` — the statement with every `for` loop in it written as a `while` loop.
* `Stmt.isForFree` — whether a statement has no `for` loop in it; `Stmt.isForFree_desugar`.
* `Stmt.assemble_desugar` — **both are the same action on the buffer**.
* `assembleAll_desugar` — what this says of programs.
-/

set_option autoImplicit false
namespace Scriptlet

/-! ## Writing `for` loops as `while` loops -/

/-- The condition of a `for` loop on a line; a missing one is true. -/
def ForClauses.whileCondition (c : ForClauses) (line : Int) : Expr :=
  c.condition.getD (.literal (.bool true) line)

mutual

/-- The statement with every `for` loop in it written as a `while` loop. -/
def Stmt.desugar : Stmt → Stmt
  | .declare b => .declare b
  | .assign b => .assign b
  | .assignElement name index value line => .assignElement name index value line
  | .print value line => .print value line
  | .block body line => .block (Stmt.desugarAll body) line
  | .ifThen condition body bodyLine line =>
    .ifThen condition (Stmt.desugarAll body) bodyLine line
  | .ifElse condition body bodyLine otherwise otherwiseLine line =>
    .ifElse condition (Stmt.desugarAll body) bodyLine (Stmt.desugarAll otherwise) otherwiseLine line
  | .whileLoop condition body bodyLine line =>
    .whileLoop condition (Stmt.desugarAll body) bodyLine line
  | .forLoop clauses body bodyLine line =>
    .block (clauses.init.toList.map ForInit.toStmt ++
      [.whileLoop (clauses.whileCondition line)
        (Stmt.desugarAll body ++ clauses.increment.toList.map .assign) bodyLine line]) line

/-- The statements with every `for` loop in them written as a `while` loop. -/
def Stmt.desugarAll : List Stmt → List Stmt
  | [] => []
  | s :: ss => s.desugar :: Stmt.desugarAll ss

end

mutual

/-- Whether a statement has no `for` loop in it. -/
def Stmt.isForFree : Stmt → Bool
  | .declare _ | .assign _ | .assignElement _ _ _ _ | .print _ _ => true
  | .block body _ | .ifThen _ body _ _ | .whileLoop _ body _ _ => Stmt.areForFree body
  | .ifElse _ body _ otherwise _ _ => Stmt.areForFree body && Stmt.areForFree otherwise
  | .forLoop _ _ _ _ => false

/-- Whether some statements have no `for` loop in them. -/
def Stmt.areForFree : List Stmt → Bool
  | [] => true
  | s :: ss => s.isForFree && Stmt.areForFree ss

end

theorem Stmt.desugarAll_eq_map (ss : List Stmt) : Stmt.desugarAll ss = ss.map Stmt.desugar := by
  induction ss with
  | nil => simp [Stmt.desugarAll]
  | cons s ss ih => simp [Stmt.desugarAll, ih]

theorem Stmt.areForFree_eq_all (ss : List Stmt) : Stmt.areForFree ss = ss.all Stmt.isForFree := by
  induction ss with
  | nil => simp [Stmt.areForFree]
  | cons s ss ih => simp [Stmt.areForFree, ih]

theorem ForInit.isForFree_toStmt (i : ForInit) : i.toStmt.isForFree = true := by
  rcases i with b | b <;> simp [ForInit.toStmt, Stmt.isForFree]

mutual

/-- No `for` loop is left. -/
theorem Stmt.isForFree_desugar : ∀ s : Stmt, s.desugar.isForFree = true
  | .declare _ | .assign _ | .assignElement _ _ _ _ | .print _ _ => by
    simp [Stmt.desugar, Stmt.isForFree]
  | .block body _ | .ifThen _ body _ _ | .whileLoop _ body _ _ => by
    simp [Stmt.desugar, Stmt.isForFree, Stmt.areForFree_desugarAll body]
  | .ifElse _ body _ otherwise _ _ => by
    simp [Stmt.desugar, Stmt.isForFree, Stmt.areForFree_desugarAll body,
      Stmt.areForFree_desugarAll otherwise]
  | .forLoop clauses body _ _ => by
    have hbody := Stmt.areForFree_desugarAll body
    simp_all [Stmt.desugar, Stmt.isForFree, Stmt.areForFree_eq_all, ForInit.isForFree_toStmt]

theorem Stmt.areForFree_desugarAll : ∀ ss : List Stmt, Stmt.areForFree (Stmt.desugarAll ss) = true
  | [] => by simp [Stmt.desugarAll, Stmt.areForFree]
  | s :: ss => by
    simp [Stmt.desugarAll, Stmt.areForFree, s.isForFree_desugar, Stmt.areForFree_desugarAll ss]

end

/-! ## Code -/

theorem Stmt.assembleAll_append (ss ts : List Stmt) :
    Stmt.assembleAll (ss ++ ts) = (do Stmt.assembleAll ss; Stmt.assembleAll ts) := by
  induction ss with
  | nil => simp [Stmt.assembleAll]
  | cons s ss ih => simp [Stmt.assembleAll, ih]

theorem emitAll_nil : emitAll [] = pure () := by
  funext b
  have hrun := run_emitAll [] b.code.toList b.patches.toList
  rw [List.append_nil, bufferOf_toList] at hrun
  exact hrun

theorem ForInit.assemble_toStmt (i : ForInit) : i.toStmt.assemble = emitAll i.code := by
  rcases i with b | b <;> simp [ForInit.toStmt, Stmt.assemble, ForInit.code]

/-- A clause that may be missing, as a list of statements. -/
theorem assembleAll_toList {α : Type} {toStmt : α → Stmt} {code : α → List Instruction}
    (h : ∀ a, (toStmt a).assemble = emitAll (code a)) (o : Option α) :
    Stmt.assembleAll (o.toList.map toStmt) = emitAll (optionalCode code o) := by
  rcases o with _ | a
  · simp [Stmt.assembleAll, optionalCode, emitAll_nil]
  · simp [Stmt.assembleAll, optionalCode, h]

theorem ForClauses.code_whileCondition (c : ForClauses) (line : Int) :
    (c.whileCondition line).code = c.conditionCode := by
  rw [ForClauses.whileCondition, ForClauses.conditionCode]
  rcases c.condition with _ | e
  · simp [Expr.code, Literal.code]
  · simp

mutual

/-- **A statement and its desugared form are the same action on the buffer.** -/
theorem Stmt.assemble_desugar : ∀ s : Stmt, s.desugar.assemble = s.assemble
  | .declare _ | .assign _ | .assignElement _ _ _ _ | .print _ _ => by simp [Stmt.desugar]
  | .block body _ | .ifThen _ body _ _ | .whileLoop _ body _ _ => by
    simp [Stmt.desugar, Stmt.assemble, Stmt.assembleAll_desugarAll body]
  | .ifElse _ body _ otherwise _ _ => by
    simp [Stmt.desugar, Stmt.assemble, Stmt.assembleAll_desugarAll body,
      Stmt.assembleAll_desugarAll otherwise]
  | .forLoop clauses body _ line => by
    have hinit := assembleAll_toList ForInit.assemble_toStmt clauses.init
    have hassign (b : Binding) : (Stmt.assign b).assemble = emitAll b.code := by
      simp [Stmt.assemble]
    have hincrement := assembleAll_toList hassign clauses.increment
    simp only [Stmt.desugar, Stmt.assemble, Stmt.assembleAll_append, hinit, hincrement,
      Stmt.assembleAll, Stmt.assembleAll_desugarAll body, clauses.code_whileCondition line]
    simp

theorem Stmt.assembleAll_desugarAll : ∀ ss : List Stmt,
    Stmt.assembleAll (Stmt.desugarAll ss) = Stmt.assembleAll ss
  | [] => by simp [Stmt.desugarAll]
  | s :: ss => by
    simp [Stmt.desugarAll, Stmt.assembleAll, s.assemble_desugar, Stmt.assembleAll_desugarAll ss]

end

/-- **Writing `for` loops as `while` loops leaves no trace in the code.**  The program that is left
has no `for` loop.  Whatever the buffer holds, both programs append the same instructions, jumps
included, and make the same patches; and so do they with a halt at the end. -/
theorem assembleAll_desugar (program : List Stmt) :
    (∀ s ∈ program.map Stmt.desugar, s.isForFree = true) ∧
    (∀ b : CodeBuffer, ∃ (code : List Instruction) (patches : List Patch),
      (Stmt.assembleAll program).run b =
        .ok () ⟨b.code ++ code.toArray, b.patches ++ patches.toArray⟩ ∧
      (Stmt.assembleAll (program.map Stmt.desugar)).run b =
        .ok () ⟨b.code ++ code.toArray, b.patches ++ patches.toArray⟩) ∧
    ∀ b : CodeBuffer, (assembleProgram (program.map Stmt.desugar)).run b =
      (assembleProgram program).run b := by
  have hsame : Stmt.assembleAll (program.map Stmt.desugar) = Stmt.assembleAll program := by
    rw [← Stmt.desugarAll_eq_map, Stmt.assembleAll_desugarAll]
  refine ⟨?_, fun b => ?_, fun b => ?_⟩
  · rintro _ hs
    obtain ⟨s, -, rfl⟩ := List.mem_map.1 hs
    exact s.isForFree_desugar
  · obtain ⟨qs, hrun, -⟩ := Stmt.lays_assembleAll 0 program b.code.toList b.patches.toList
      (Nat.zero_le _)
    have happend : (Stmt.assembleAll program).run b = .ok ()
        ⟨b.code ++ (Stmt.layoutAll program b.code.size).toArray, b.patches ++ qs.toArray⟩ := by
      rw [bufferOf_toList, Array.length_toList] at hrun
      rw [hrun]
      simp [bufferOf]
    exact ⟨_, _, happend, hsame ▸ happend⟩
  · rw [assembleProgram, hsame, assembleProgram]

end Scriptlet
