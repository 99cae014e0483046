import Scriptlet.Proofs.Writes

/-!
# Code is written once

An assembler can be asked to append an instruction, to reserve a jump, to patch an operand, or to
assemble a statement or a program, in any order.  A patch may be refused, and assembling may be
given up half-way, as for a tree that is nested too deeply; the next operation goes on with the code
as it was left.  Whatever is asked, code grows at its end only, opcodes stay, and an operand is
written at most once after its instruction was appended.

The guard of a patch is a comparison with the placeholder, which reads `0` like many an operand that
waits for nothing.  It is enough: a target other than zero does not read `0`, so no second patch
gets past it, and a target of zero changes nothing.

## What is here

* `Instruction.Becomes`, `Extends` — what may become of an instruction, and of code.  Both are
  reflexive and transitive.
* `WriteOnce.of_extends` — **a history in which each code extends the last is written once**.
* `Write.extends_perform` — each write extends the code.
* `Assembler.Operation`, `Assembler.Attempt` — what can be asked, and whether it is given up.
* `Assembler.writeOnce_of_attempts` — what holds along every sequence of attempts.
-/

set_option autoImplicit false
namespace Scriptlet

/-! ## What may become of an instruction -/

theorem toString_eq_placeholder_iff {t : Int} : toString t = placeholder ↔ t = 0 := by
  have hread (t : Int) : (toString t).toInt? = some t := Int.toInt?_repr t
  constructor
  · intro h
    have hzero : placeholder.toInt? = some 0 := hread 0
    rw [← h, hread, Option.some.injEq] at hzero
    exact hzero
  · rintro rfl
    rfl

/-- A target other than zero does not read like the placeholder. -/
theorem target_ne_placeholder {t : Int} (ht : t ≠ 0) : some (toString t) ≠ some placeholder := by
  rw [Ne, Option.some.injEq, toString_eq_placeholder_iff]
  exact ht

/-- What may become of an instruction: it stays as it is, or its operand is the placeholder and is
given a target other than zero. -/
inductive Instruction.Becomes : Instruction → Instruction → Prop
  | same (x : Instruction) : Becomes x x
  | target (op : Opcode) (t : Int) (ht : t ≠ 0) :
      Becomes ⟨op, some placeholder⟩ ⟨op, some (toString t)⟩

namespace Instruction.Becomes

variable {x y z : Instruction}

theorem opcode_eq (h : x.Becomes y) : y.opcode = x.opcode := by
  cases h with
  | same => rfl
  | target => rfl

theorem eq_of_ne_placeholder (h : x.Becomes y) (hx : x.operand ≠ some placeholder) : y = x := by
  cases h with
  | same => rfl
  | target => exact absurd rfl hx

theorem exists_target (h : x.Becomes y) (hne : x.operand ≠ y.operand) :
    x.operand = some placeholder ∧ ∃ t : Int, t ≠ 0 ∧ y.operand = some (toString t) := by
  cases h with
  | same => exact absurd rfl hne
  | target op t ht => exact ⟨rfl, t, ht, rfl⟩

theorem ne_placeholder (h : x.Becomes y) (hne : x.operand ≠ y.operand) :
    y.operand ≠ some placeholder := by
  obtain ⟨-, t, ht, hy⟩ := h.exists_target hne
  rw [hy]
  exact target_ne_placeholder ht

theorem trans (h : x.Becomes y) (h' : y.Becomes z) : x.Becomes z := by
  cases h with
  | same => exact h'
  | target op t ht =>
    -- What has its target already has nothing left to become.
    rw [h'.eq_of_ne_placeholder (target_ne_placeholder ht)]
    exact .target op t ht

end Instruction.Becomes

/-! ## What may become of code -/

/-- Every instruction of the first code is in the second at the same index, up to its target. -/
def Extends (before after : Array Instruction) : Prop :=
  ∀ (i : Nat) (x : Instruction), before[i]? = some x → ∃ y, after[i]? = some y ∧ x.Becomes y

namespace Extends

variable {before after later code : Array Instruction}

theorem refl (code : Array Instruction) : Extends code code :=
  fun _ x hx => ⟨x, hx, .same x⟩

theorem trans (h : Extends before after) (h' : Extends after later) : Extends before later := by
  intro i x hx
  obtain ⟨y, hy, hxy⟩ := h i x hx
  obtain ⟨z, hz, hyz⟩ := h' i y hy
  exact ⟨z, hz, hxy.trans hyz⟩

theorem becomes (h : Extends before after) {i : Nat} {x y : Instruction} (hx : before[i]? = some x)
    (hy : after[i]? = some y) : x.Becomes y := by
  obtain ⟨y', hy', hxy⟩ := h i x hx
  rw [hy, Option.some.injEq] at hy'
  exact hy' ▸ hxy

theorem size_le (h : Extends before after) : before.size ≤ after.size := by
  by_contra hlt
  obtain ⟨y, hy, -⟩ := h after.size _ (Array.getElem?_eq_getElem (not_le.1 hlt))
  simp at hy

theorem push (code : Array Instruction) (x : Instruction) : Extends code (code.push x) := by
  intro i y hy
  have hi : i < code.size := (Array.getElem?_eq_some_iff.1 hy).1
  refine ⟨y, ?_, .same y⟩
  rw [Array.getElem?_push, if_neg (by omega)]
  exact hy

/-- A target of zero reads like the placeholder, so it leaves the code as it is. -/
theorem setTarget {i : Nat} {op : Opcode} (hi : code[i]? = some ⟨op, some placeholder⟩) (t : Int) :
    Extends code (code.setIfInBounds i ⟨op, some (toString t)⟩) := by
  have hlt : i < code.size := (Array.getElem?_eq_some_iff.1 hi).1
  intro j x hx
  rw [Array.getElem?_setIfInBounds]
  by_cases hij : i = j
  · subst hij
    obtain rfl : x = ⟨op, some placeholder⟩ := Option.some.inj (hx.symm.trans hi)
    refine ⟨⟨op, some (toString t)⟩, by rw [if_pos rfl, if_pos hlt], ?_⟩
    by_cases ht : t = 0
    · rw [toString_eq_placeholder_iff.2 ht]
      exact .same _
    · exact .target op t ht
  · exact ⟨x, by rw [if_neg hij]; exact hx, .same x⟩

end Extends

/-! ## Histories -/

/-- The operand at the index `i` changes in the step after `n`. -/
def Changes (code : Nat → Array Instruction) (n i : Nat) : Prop :=
  ∃ x y, (code n)[i]? = some x ∧ (code (n + 1))[i]? = some y ∧ x.operand ≠ y.operand

/-- Code that is written once: it never gets shorter, the opcode at an index never changes, and the
operand at an index changes at most once, from the placeholder to a target other than zero. -/
structure WriteOnce (code : Nat → Array Instruction) : Prop where
  size_le {m n : Nat} (h : m ≤ n) : (code m).size ≤ (code n).size
  opcode_eq {m n i : Nat} {x y : Instruction} (h : m ≤ n) (hx : (code m)[i]? = some x)
    (hy : (code n)[i]? = some y) : y.opcode = x.opcode
  exists_target {n i : Nat} {x y : Instruction} (hx : (code n)[i]? = some x)
    (hy : (code (n + 1))[i]? = some y) (hne : x.operand ≠ y.operand) :
    x.operand = some placeholder ∧ ∃ t : Int, t ≠ 0 ∧ y.operand = some (toString t)
  once {m n i : Nat} (hm : Changes code m i) (hn : Changes code n i) : m = n

section Histories

variable {code : Nat → Array Instruction} (h : ∀ n, Extends (code n) (code (n + 1)))

include h

theorem extends_of_le {m n : Nat} (hmn : m ≤ n) : Extends (code m) (code n) := by
  induction hmn with
  | refl => exact .refl _
  | step _ ih => exact ih.trans (h _)

/-- After a change the operand does not read like the placeholder, and so it stays. -/
theorem not_changes_of_lt {m n i : Nat} (hm : Changes code m i) (hmn : m < n) :
    ¬Changes code n i := by
  obtain ⟨x, y, hx, hy, hxy⟩ := hm
  rintro ⟨x', y', hx', hy', hxy'⟩
  have hne : y.operand ≠ some placeholder := ((h m).becomes hx hy).ne_placeholder hxy
  have hkept : x' = y := ((extends_of_le h hmn).becomes hy hx').eq_of_ne_placeholder hne
  exact hne (hkept ▸ (((h n).becomes hx' hy').exists_target hxy').1)

/-- **A history in which each code extends the last is written once.** -/
theorem WriteOnce.of_extends : WriteOnce code where
  size_le hmn := (extends_of_le h hmn).size_le
  opcode_eq hmn hx hy := ((extends_of_le h hmn).becomes hx hy).opcode_eq
  exists_target hx hy hne := ((h _).becomes hx hy).exists_target hne
  once {m n _} hm hn := by
    rcases Nat.lt_trichotomy m n with hlt | heq | hlt
    · exact absurd hn (not_changes_of_lt h hm hlt)
    · exact heq
    · exact absurd hm (not_changes_of_lt h hn hlt)

end Histories

/-! ## Writes -/

section Steps

variable {α : Type} {perform : α → CodeBuffer → CodeBuffer}
  (h : ∀ a b, Extends b.code (perform a b).code)

include h

theorem extends_performEach (steps : List α) (b : CodeBuffer) :
    Extends b.code (performEach perform steps b).code := by
  induction steps generalizing b with
  | nil => exact .refl _
  | cons a steps ih => exact (h a b).trans (ih _)

theorem writeOnce_performEach (steps : List α) (b : CodeBuffer) :
    WriteOnce fun n => (performEach perform (steps.take n) b).code :=
  .of_extends fun n => by
    simp only [performEach_take_succ]
    exact extends_performEach h _ _

end Steps

namespace Write

/-- **A write extends the code.** -/
theorem extends_perform (w : Write) (b : CodeBuffer) : Extends b.code (w.perform b).code := by
  rcases w.perform_cases b with ⟨x, -, hcode⟩ | ⟨index, target, -, ⟨i, op, -, hx, hcode⟩ | hsame⟩
  · rw [hcode]
    exact .push _ _
  · rw [hcode]
    exact .setTarget hx target
  · rw [hsame]
    exact .refl _

/-- Only a patch at an index changes the operand there, and it changes it to its own target. -/
theorem exists_patch_of_ne {w : Write} {b : CodeBuffer} {i : Nat} {x y : Instruction}
    (hx : b.code[i]? = some x) (hy : (w.perform b).code[i]? = some y)
    (hne : x.operand ≠ y.operand) :
    ∃ index target, w = patch index target ∧ place? b.code.size index = some i ∧ target ≠ 0 ∧
      y.operand = some (toString target) := by
  have hchanged : (w.perform b).code[i]? ≠ b.code[i]? := by
    intro h
    rw [h, hx, Option.some.injEq] at hy
    exact hne (congrArg Instruction.operand hy)
  have hi : i < b.code.size := (Array.getElem?_eq_some_iff.1 hx).1
  rcases w.perform_cases b with ⟨z, -, hcode⟩ | ⟨index, target, hw, ⟨j, op, hj, hop, hcode⟩ | hb⟩
  · rw [hcode, Array.getElem?_push, if_neg (Nat.ne_of_lt hi)] at hchanged
    exact absurd rfl hchanged
  · obtain rfl : j = i := by
      by_contra hij
      rw [hcode, Array.getElem?_setIfInBounds, if_neg hij] at hchanged
      exact hchanged rfl
    rw [hcode, Array.getElem?_setIfInBounds, if_pos rfl, if_pos hi, Option.some.injEq] at hy
    obtain rfl : x = ⟨op, some placeholder⟩ := Option.some.inj (hx.symm.trans hop)
    subst hy
    refine ⟨index, target, hw, hj, ?_, rfl⟩
    rintro rfl
    exact hne rfl
  · rw [hb] at hchanged
    exact absurd rfl hchanged

end Write

theorem exists_patch_of_changes {ws : List Write} {b : CodeBuffer} {n i : Nat}
    (h : Changes (fun n => (performEach Write.perform (ws.take n) b).code) n i) :
    ∃ index target, ws[n]? = some (.patch index target) ∧
      place? (performEach Write.perform (ws.take n) b).code.size index = some i ∧ target ≠ 0 ∧
      (performEach Write.perform (ws.take (n + 1)) b).code[i]?.bind Instruction.operand =
        some (toString target) := by
  obtain ⟨x, y, hx, hy, hne⟩ := h
  simp only [performEach_take_succ] at hy ⊢
  rcases hw : ws[n]? with _ | w
  · -- Past the last write nothing changes any more.
    rw [hw] at hy
    exact absurd (congrArg Instruction.operand (Option.some.inj (hx.symm.trans hy))) hne
  · rw [hw] at hy
    obtain ⟨index, target, rfl, hplace, hzero, htarget⟩ := Write.exists_patch_of_ne hx hy hne
    refine ⟨index, target, rfl, hplace, hzero, ?_⟩
    rw [← htarget]
    exact congrArg (·.bind Instruction.operand) hy

/-! ## Operations -/

namespace Assembler

/-- What can be asked of an assembler. -/
inductive Operation where
  | emit (opcode : Opcode) (operand : Option String)
  | reserve (opcode : Opcode)
  | patch (index target : Int)
  | statement (s : Stmt)
  | program (statements : List Stmt)

namespace Operation

/-- The operation as an action on the buffer, without its result. -/
def action : Operation → Assembler Unit
  | emit opcode operand => Scriptlet.emit opcode operand
  | reserve opcode => discard (Scriptlet.reserve opcode)
  | patch index target => Scriptlet.patch index target
  | statement s => s.assemble
  | program statements => assembleProgram statements

/-- The writes of the operation, from the index of the next instruction on. -/
def writes : Operation → Nat → List Write
  | emit opcode operand, _ => [.append ⟨opcode, operand⟩]
  | reserve opcode, _ => [.append ⟨opcode, some placeholder⟩]
  | patch index target, _ => [.patch index target]
  | statement s, k => s.writes k
  | program statements, k => Stmt.writesAll statements k ++ [.append ⟨.halt, none⟩]

/-- **An operation makes its writes.**  Only a patch that is asked for can be refused. -/
theorem buffer_action (op : Operation) (b : CodeBuffer) :
    op.action.buffer b = performEach Write.perform (op.writes b.code.size) b := by
  cases op with
  | emit opcode operand => rfl
  | reserve opcode => rfl
  | patch index target => rfl
  | statement s =>
    -- A refusal would end the action but not the writes; the layout shows that there is none.
    obtain ⟨b', hrun⟩ := (s.lays_assemble 0).exists_run b
    exact s.makes_assemble.buffer_eq hrun
  | program statements =>
    obtain ⟨b', hrun⟩ := (Stmt.lays_assembleAll 0 statements).exists_run b
    have hmakes := (Stmt.makes_assembleAll statements).seq (.emit .halt none)
    exact hmakes.buffer_eq (by rw [EStateM.run_bind, hrun]; rfl)

end Operation

/-- An operation and, if it is given up half-way, the number of its writes that are made. -/
structure Attempt where
  operation : Operation
  stop : Option Nat := none

namespace Attempt

/-- The buffer after the attempt, whether the operation is done, refused or given up. -/
def perform (a : Attempt) (b : CodeBuffer) : CodeBuffer :=
  match a.stop with
  | none => a.operation.action.buffer b
  | some n => performEach Write.perform ((a.operation.writes b.code.size).take n) b

/-- The writes of the attempt, from the index of the next instruction on. -/
def writes (a : Attempt) (k : Nat) : List Write :=
  match a.stop with
  | none => a.operation.writes k
  | some n => (a.operation.writes k).take n

theorem perform_eq (a : Attempt) (b : CodeBuffer) :
    a.perform b = performEach Write.perform (a.writes b.code.size) b := by
  rw [perform, writes]
  rcases a.stop with _ | n
  · exact a.operation.buffer_action b
  · rfl

theorem extends_perform (a : Attempt) (b : CodeBuffer) : Extends b.code (a.perform b).code := by
  rw [perform_eq]
  exact extends_performEach Write.extends_perform _ b

end Attempt

/-- The writes of some attempts, one after the other. -/
def writesOf : List Attempt → CodeBuffer → List Write
  | [], _ => []
  | a :: attempts, b => a.writes b.code.size ++ writesOf attempts (a.perform b)

theorem performEach_writesOf (attempts : List Attempt) (b : CodeBuffer) :
    performEach Write.perform (writesOf attempts b) b =
      performEach Attempt.perform attempts b := by
  induction attempts generalizing b with
  | nil => rfl
  | cons a attempts ih =>
    rw [writesOf, performEach_append, ← a.perform_eq, ih]
    rfl

/-- **Code is written once**, whatever is asked of the assembler and whatever becomes of it.  The
attempts pass through one code after each of their writes, those that assemble statements included.
Along all of them the code grows by the instructions that are appended, opcodes stay, and an operand
changes at most once, from the placeholder to a target other than zero, which is the target of the
patch that is made there.  The same holds from attempt to attempt.  A patch succeeds where the
operand is the placeholder, and one that fails leaves everything as it was. -/
theorem writeOnce_of_attempts (attempts : List Attempt) (b : CodeBuffer) :
    let writes := writesOf attempts b
    let stage := fun n => performEach Write.perform (writes.take n) b
    let left := performEach Attempt.perform attempts b
    stage writes.length = left ∧
    (∀ n, (stage n).code.size = b.code.size + appended (writes.take n)) ∧
    WriteOnce (fun n => (stage n).code) ∧
    (∀ n i, Changes (fun n => (stage n).code) n i → ∃ index target,
      writes[n]? = some (.patch index target) ∧ place? (stage n).code.size index = some i ∧
      target ≠ 0 ∧ (stage (n + 1)).code[i]?.bind Instruction.operand = some (toString target)) ∧
    WriteOnce (fun n => (performEach Attempt.perform (attempts.take n) b).code) ∧
    ∀ index target : Int,
      ((∃ b', (patch index target).run left = .ok () b') ↔
        ∃ i op, place? left.code.size index = some i ∧
          left.code[i]? = some ⟨op, some placeholder⟩) ∧
      ∀ e b', (patch index target).run left = .error e b' → b' = left := by
  intro writes stage left
  refine ⟨?_, fun n => ?_, ?_, fun n i hchanges => ?_, ?_, fun index target => ⟨?_, ?_⟩⟩
  · have hall : stage writes.length = performEach Write.perform writes b := by
      simp only [stage, List.take_length]
    exact hall.trans (performEach_writesOf attempts b)
  · exact size_performEach _ b
  · exact writeOnce_performEach Write.extends_perform writes b
  · exact exists_patch_of_changes hchanges
  · exact writeOnce_performEach Attempt.extends_perform attempts b
  · exact exists_run_patch_iff index target left
  · intro e b' hrun
    exact eq_of_run_patch_error hrun

example :
    (performEach Attempt.perform [⟨.reserve .jump, none⟩, ⟨.patch 0 0, none⟩, ⟨.patch (-1) 4, none⟩,
      ⟨.patch 0 5, none⟩, ⟨.statement (.whileLoop (.variable "x" 1) [] 1 1), some 2⟩,
      ⟨.patch 2 (-7), none⟩] {}).code =
    #[⟨.jump, some "4"⟩, ⟨.load, some "x"⟩, ⟨.jumpIfFalse, some "-7"⟩] := by decide

end Assembler

end Scriptlet
