import Scriptlet.Proofs.Layout

/-!
# Assembling, write by write

The code of a buffer is changed in two ways only: an instruction is appended, or the instruction at
an index is given a target.  The layout of a statement says what assembling leaves behind; here its
writes are listed in the order in which they are made, the reserved jumps and their patches
included.  So it can be said what the code is at each moment in between.

## What is here

* `run_patch_cases` — when a patch is made, and what it does; otherwise nothing changes.
* `Write`, `Write.perform_cases` — the writes, and what each of them does to the code.
* `Makes` — an action makes some writes, which depend on the index of the next instruction.
* `Stmt.writes`, `Stmt.makes_assemble` — **assembling a statement makes its writes**.
-/

set_option autoImplicit false
namespace Scriptlet

/-! ## Patches -/

/-- A patch is made where the operand is the placeholder; elsewhere it is refused, and the buffer
stays as it is. -/
theorem run_patch_cases (index target : Int) (b : CodeBuffer) :
    (∃ i op, place? b.code.size index = some i ∧ b.code[i]? = some ⟨op, some placeholder⟩ ∧
      (patch index target).run b = .ok ()
        ⟨b.code.setIfInBounds i ⟨op, some (toString target)⟩, b.patches.push ⟨index, op, target⟩⟩) ∨
    (∀ i op, place? b.code.size index = some i → b.code[i]? ≠ some ⟨op, some placeholder⟩) ∧
      ∃ e, (patch index target).run b = .error e b := by
  rcases hplace : place? b.code.size index with _ | i
  · refine .inr ⟨fun i op hi => absurd hi (Option.some_ne_none i).symm, .outOfRange, ?_⟩
    simp only [patch, EStateM.run_bind, EStateM.run_get, hplace]
    rfl
  rcases hx : b.code[i]? with _ | ⟨op, operand⟩
  · refine .inr ⟨fun j op hj => ?_, .outOfRange, ?_⟩
    · rw [← Option.some.inj hj, hx]
      exact (Option.some_ne_none _).symm
    · simp only [patch, EStateM.run_bind, EStateM.run_get, hplace, hx]
      rfl
  by_cases hoperand : operand = some placeholder
  · subst hoperand
    refine .inl ⟨i, op, rfl, hx, ?_⟩
    simp only [patch, EStateM.run_bind, EStateM.run_get, hplace, hx]
    rfl
  · refine .inr ⟨fun j op' hj hop' => ?_, .alreadyPatched index op, ?_⟩
    · rw [← Option.some.inj hj, hx, Option.some.injEq, Instruction.mk.injEq] at hop'
      exact hoperand hop'.2
    · simp only [patch, EStateM.run_bind, EStateM.run_get, hplace, hx, if_neg hoperand]
      rfl

theorem exists_run_patch_iff (index target : Int) (b : CodeBuffer) :
    (∃ b', (patch index target).run b = .ok () b') ↔
      ∃ i op, place? b.code.size index = some i ∧ b.code[i]? = some ⟨op, some placeholder⟩ := by
  rcases run_patch_cases index target b with ⟨i, op, hi, hx, hrun⟩ | ⟨hnot, e, hrun⟩
  · exact iff_of_true ⟨_, hrun⟩ ⟨i, op, hi, hx⟩
  · refine iff_of_false ?_ ?_
    · rintro ⟨b', h⟩
      rw [hrun] at h
      cases h
    · rintro ⟨i, op, hi, hx⟩
      exact hnot i op hi hx

theorem eq_of_run_patch_error {index target : Int} {b b' : CodeBuffer} {e : PatchFault}
    (h : (patch index target).run b = .error e b') : b' = b := by
  rcases run_patch_cases index target b with ⟨i, op, -, -, hrun⟩ | ⟨-, e', hrun⟩
  · rw [hrun] at h
    cases h
  · rw [hrun] at h
    exact (EStateM.Result.error.inj h).2.symm

/-! ## One step after another -/

section Steps

variable {α : Type} (perform : α → CodeBuffer → CodeBuffer)

/-- The buffer after some steps, each from where the last one left it. -/
def performEach (steps : List α) (b : CodeBuffer) : CodeBuffer :=
  steps.foldl (fun b a => perform a b) b

theorem performEach_append (steps steps' : List α) (b : CodeBuffer) :
    performEach perform (steps ++ steps') b =
      performEach perform steps' (performEach perform steps b) :=
  List.foldl_append

theorem performEach_take_succ (steps : List α) (b : CodeBuffer) (n : Nat) :
    performEach perform (steps.take (n + 1)) b =
      performEach perform steps[n]?.toList (performEach perform (steps.take n) b) := by
  rw [List.take_add_one, performEach_append]

end Steps

/-! ## Writes -/

/-- A write to the code: one more instruction, or a target for the instruction at an index. -/
inductive Write where
  | append (instruction : Instruction)
  | patch (index target : Int)
  deriving DecidableEq, Repr

namespace Write

/-- The write as an action on the buffer. -/
def action : Write → Assembler Unit
  | append x => emit x.opcode x.operand
  | patch index target => Scriptlet.patch index target

/-- The buffer after the write, which may be refused. -/
def perform (w : Write) (b : CodeBuffer) : CodeBuffer :=
  w.action.buffer b

/-- The number of instructions that the write appends. -/
def gain : Write → Nat
  | append _ => 1
  | patch _ _ => 0

/-- What a write does to the code: it appends an instruction, gives a placeholder its target, or
is refused. -/
theorem perform_cases (w : Write) (b : CodeBuffer) :
    (∃ x, w = append x ∧ (w.perform b).code = b.code.push x) ∨
    ∃ index target, w = patch index target ∧
      ((∃ i op, place? b.code.size index = some i ∧ b.code[i]? = some ⟨op, some placeholder⟩ ∧
        (w.perform b).code = b.code.setIfInBounds i ⟨op, some (toString target)⟩) ∨
      w.perform b = b) := by
  cases w with
  | append x => exact .inl ⟨x, rfl, rfl⟩
  | patch index target =>
    refine .inr ⟨index, target, rfl, ?_⟩
    rcases run_patch_cases index target b with ⟨i, op, hi, hx, hrun⟩ | ⟨-, e, hrun⟩
    · exact .inl ⟨i, op, hi, hx, by rw [perform, action, Assembler.buffer, hrun]⟩
    · exact .inr (by rw [perform, action, Assembler.buffer, hrun])

theorem size_perform (w : Write) (b : CodeBuffer) :
    (w.perform b).code.size = b.code.size + w.gain := by
  rcases w.perform_cases b with ⟨x, rfl, hcode⟩ | ⟨index, target, rfl, ⟨i, op, -, -, hcode⟩ | hsame⟩
  · rw [hcode, Array.size_push, gain]
  · rw [hcode, Array.size_setIfInBounds, gain, Nat.add_zero]
  · rw [hsame, gain, Nat.add_zero]

end Write

/-- The number of instructions that some writes append. -/
def appended (ws : List Write) : Nat :=
  (ws.map Write.gain).sum

theorem size_performEach (ws : List Write) (b : CodeBuffer) :
    (performEach Write.perform ws b).code.size = b.code.size + appended ws := by
  induction ws generalizing b with
  | nil => rfl
  | cons w ws ih =>
    have hrest := ih (w.perform b)
    rw [w.size_perform] at hrest
    rw [appended, List.map_cons, List.sum_cons, ← Nat.add_assoc]
    exact hrest

/-! ## Actions that make writes

The writes of a statement depend on the index of the next instruction, for they tell the patches
where the jumps are and where they go to. -/

/-- The action makes the writes one after the other until one is refused. -/
def Makes (action : Assembler Unit) (writes : Nat → List Write) : Prop :=
  ∀ b : CodeBuffer, action.run b = (forM (writes b.code.size) Write.action).run b

/-- Without a refusal all writes are made. -/
theorem performEach_of_forM {ws : List Write} {b b' : CodeBuffer}
    (h : (forM ws Write.action).run b = .ok () b') : performEach Write.perform ws b = b' := by
  induction ws generalizing b with
  | nil => exact (EStateM.Result.ok.inj h).2
  | cons w ws ih =>
    rw [List.forM_cons, EStateM.run_bind] at h
    rcases hw : w.action.run b with ⟨_, c⟩ | ⟨e, c⟩
    · rw [hw] at h
      have hperform : w.perform b = c := by rw [Write.perform, Assembler.buffer, hw]
      rw [← ih h, ← hperform]
      rfl
    · rw [hw] at h
      cases h

namespace Makes

variable {first second : Assembler Unit} {f g : Nat → List Write}

theorem emitAll (cs : List Instruction) : Makes (emitAll cs) fun _ => cs.map .append := by
  intro b
  rw [← bufferOf_toList b, run_emitAll]
  generalize b.code.toList = xs
  induction cs generalizing xs with
  | nil => simp [bufferOf, pure, EStateM.pure, EStateM.run]
  | cons c cs ih =>
    rw [List.map_cons, List.forM_cons, EStateM.run_bind, Write.action, run_emit]
    simpa using ih (xs ++ [c])

theorem emit (op : Opcode) (a : Option String) :
    Makes (emit op a) fun _ => [.append ⟨op, a⟩] :=
  fun _ => rfl

theorem patchHere (i : Nat) : Makes (patchHere i) fun k => [.patch i k] := by
  intro b
  rw [List.forM_cons, List.forM_nil, Scriptlet.patchHere]
  simp [nextIndex, Write.action]

theorem nextIndex {action : Nat → Assembler Unit} {f : Nat → Nat → List Write}
    (h : ∀ i, Makes (action i) (f i)) :
    Makes (do let i ← nextIndex; action i) fun k => f k k :=
  fun b => h b.code.size b

theorem seq (hf : Makes first f) (hg : Makes second g) :
    Makes (do first; second) fun k => f k ++ g (k + appended (f k)) := by
  intro b
  -- The second action starts from the index that the writes of the first have led to.
  rw [List.forM_append, EStateM.run_bind, EStateM.run_bind, hf b]
  rcases hrun : (forM (f b.code.size) Write.action).run b with ⟨_, c⟩ | ⟨e, c⟩
  · have hsize : c.code.size = b.code.size + appended (f b.code.size) := by
      rw [← performEach_of_forM hrun, size_performEach]
    simp only [hg c, hsize]
  · rfl

theorem emitAll_seq (cs : List Instruction) (hg : Makes second g) :
    Makes (do Scriptlet.emitAll cs; second) fun k => cs.map .append ++ g (k + cs.length) := by
  have hgain : appended (cs.map .append) = cs.length := by
    simp [appended, Function.comp_def, Write.gain]
  have h := (emitAll cs).seq hg
  simp only [hgain] at h
  exact h

theorem reserve {action : Nat → Assembler Unit} {f : Nat → Nat → List Write} (op : Opcode)
    (h : ∀ i, Makes (action i) (f i)) :
    Makes (do let i ← reserve op; action i) fun k =>
      .append ⟨op, some placeholder⟩ :: f k (k + 1) := by
  intro b
  rw [Scriptlet.reserve]
  simp only [bind_assoc, pure_bind]
  exact nextIndex (fun i => (emit op (some placeholder)).seq (h i)) b

end Makes

/-! ## The writes of a statement -/

/-- The writes of a loop at an index, given those of its body. -/
def loopWrites (condition : List Instruction) (body : Nat → List Write) (k : Nat) : List Write :=
  let exit := k + condition.length
  let bodyWrites := body (exit + 1)
  condition.map .append ++ .append ⟨.jumpIfFalse, some placeholder⟩ :: (bodyWrites ++
    [.append (jumpTo .jump k), .patch exit (exit + 1 + appended bodyWrites + 1 : Nat)])

mutual

/-- The writes that assemble a statement whose first instruction has a given index. -/
def Stmt.writes : Stmt → Nat → List Write
  | .declare b, _ => b.code.map .append
  | .assign b, _ => b.code.map .append
  | .assignElement name index value _, _ =>
    List.map .append (value.code ++ index.code ++ [⟨.storeElement, some name⟩])
  | .print value _, _ => List.map .append (value.code ++ [⟨.print, none⟩])
  | .block body _, k => Stmt.writesAll body k
  | .ifThen condition body _ _, k =>
    let skip := k + condition.code.length
    let bodyWrites := Stmt.writesAll body (skip + 1)
    condition.code.map .append ++ .append ⟨.jumpIfFalse, some placeholder⟩ :: (bodyWrites ++
      [.patch skip (skip + 1 + appended bodyWrites : Nat)])
  | .ifElse condition body _ otherwise _ _, k =>
    let skip := k + condition.code.length
    let bodyWrites := Stmt.writesAll body (skip + 1)
    let leave := skip + 1 + appended bodyWrites
    let otherwiseWrites := Stmt.writesAll otherwise (leave + 1)
    condition.code.map .append ++ .append ⟨.jumpIfFalse, some placeholder⟩ :: (bodyWrites ++
      .append ⟨.jump, some placeholder⟩ :: .patch skip (leave + 1 : Nat) :: (otherwiseWrites ++
        [.patch leave (leave + 1 + appended otherwiseWrites : Nat)]))
  | .whileLoop condition body _ _, k =>
    loopWrites condition.code (fun i => Stmt.writesAll body i) k
  | .forLoop clauses body _ _, k =>
    let init := optionalCode ForInit.code clauses.init
    let increment := optionalCode Binding.code clauses.increment
    init.map .append ++ loopWrites clauses.conditionCode
      (fun i => Stmt.writesAll body i ++ increment.map .append) (k + init.length)

/-- The writes that assemble some statements, one after the other, from a given index on. -/
def Stmt.writesAll : List Stmt → Nat → List Write
  | [], _ => []
  | s :: ss, k => s.writes k ++ Stmt.writesAll ss (k + appended (s.writes k))

end

theorem Makes.loop {cond : List Instruction} {body : Assembler Unit} {f : Nat → List Write}
    (h : Makes body f) : Makes (assembleLoop cond body) (loopWrites cond f) := by
  have hfrom (start : Nat) := emitAll_seq cond <| reserve .jumpIfFalse fun exit =>
    h.seq ((emit .jump (some (toString start))).seq (patchHere exit))
  exact (nextIndex hfrom :)

mutual

/-- **Assembling a statement makes its writes.** -/
theorem Stmt.makes_assemble : ∀ s : Stmt, Makes s.assemble s.writes
  | .declare b => .emitAll b.code
  | .assign b => .emitAll b.code
  | .assignElement name index value _ =>
    .emitAll (value.code ++ index.code ++ [(⟨.storeElement, some name⟩ : Instruction)])
  | .print value _ => .emitAll (value.code ++ [(⟨.print, none⟩ : Instruction)])
  | .block body _ => Stmt.makes_assembleAll body
  | .ifThen c body _ _ =>
    .emitAll_seq c.code <| .reserve .jumpIfFalse fun skip =>
      (Stmt.makes_assembleAll body).seq (.patchHere skip)
  | .ifElse c body _ otherwise _ _ =>
    .emitAll_seq c.code <| .reserve .jumpIfFalse fun skip =>
      (Stmt.makes_assembleAll body).seq <| .reserve .jump fun leave =>
        (Makes.patchHere skip).seq ((Stmt.makes_assembleAll otherwise).seq (.patchHere leave))
  | .whileLoop _ body _ _ => .loop (Stmt.makes_assembleAll body)
  | .forLoop c body _ _ =>
    .emitAll_seq (optionalCode ForInit.code c.init) <|
      .loop ((Stmt.makes_assembleAll body).seq (.emitAll _))

theorem Stmt.makes_assembleAll : ∀ ss : List Stmt,
    Makes (Stmt.assembleAll ss) (Stmt.writesAll ss)
  | [] => fun _ => rfl
  | s :: ss => s.makes_assemble.seq (Stmt.makes_assembleAll ss)

end

theorem Lays.exists_run {action : Assembler Unit} {code : Nat → List Instruction}
    (h : Lays 0 action code) (b : CodeBuffer) : ∃ b', action.run b = .ok () b' := by
  obtain ⟨qs, hrun, -⟩ := h b.code.toList b.patches.toList (Nat.zero_le _)
  exact ⟨_, hrun⟩

theorem Makes.buffer_eq {action : Assembler Unit} {f : Nat → List Write} (h : Makes action f)
    {b b' : CodeBuffer} (hrun : action.run b = .ok () b') :
    action.buffer b = performEach Write.perform (f b.code.size) b := by
  rw [Assembler.buffer, hrun, performEach_of_forM ((h b).symm.trans hrun)]

end Scriptlet
