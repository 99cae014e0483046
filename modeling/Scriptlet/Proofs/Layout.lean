import Mathlib
import Scriptlet.Assembly.Assemble

/-!
# The layout of assembled code

Assembling works on one growing buffer: a jump forward is appended before its target is known, and
patched when the code in between is there.  This file says what comes out of it, without a buffer.

## What is here

* `Stmt.layout s k` — the code of the statement `s` when its first instruction has the index `k`.
  It is a plain recursion on the tree; every jump has its final target from the start.
* `Lays` — an action on the buffer appends some code and leaves all that was there before as it was.
  The patches it makes are the jumps forward of that code, each made once.
* `Stmt.lays_assemble`, `Stmt.lays_assembleAll` — assembling a statement lays out its layout, at
  whatever index the buffer has reached.
* `assemble_code` — the code of a whole program.

The point of the recursion is that the code appended between reserving a jump and patching it lies
past that jump, so that a patch always finds the placeholder it is for, however many other operands
in the buffer read `0`.
-/

set_option autoImplicit false
namespace Scriptlet

/-! ## Layout -/

/-- Whether an opcode has a target. -/
def Opcode.isJump : Opcode → Bool
  | .jump | .jumpIfFalse => true
  | _ => false

/-- A jump with its target. -/
def jumpTo (opcode : Opcode) (target : Nat) : Instruction :=
  ⟨opcode, some (toString target)⟩

/-- The layout of a loop at an index, given that of its body: the condition, a jump past the loop,
the body and a jump back to the condition. -/
def loopLayout (condition : List Instruction) (body : Nat → List Instruction) (k : Nat) :
    List Instruction :=
  let bodyCode := body (k + condition.length + 1)
  condition ++ jumpTo .jumpIfFalse (k + condition.length + 1 + bodyCode.length + 1) ::
    (bodyCode ++ [jumpTo .jump k])

mutual

/-- The code of a statement whose first instruction has a given index. -/
def Stmt.layout : Stmt → Nat → List Instruction
  | .declare b, _ => b.code
  | .assign b, _ => b.code
  | .assignElement name index value _, _ =>
    value.code ++ index.code ++ [⟨.storeElement, some name⟩]
  | .print value _, _ => value.code ++ [⟨.print, none⟩]
  | .block body _, k => Stmt.layoutAll body k
  | .ifThen condition body _ _, k =>
    let bodyCode := Stmt.layoutAll body (k + condition.code.length + 1)
    condition.code ++
      jumpTo .jumpIfFalse (k + condition.code.length + 1 + bodyCode.length) :: bodyCode
  | .ifElse condition body _ otherwise _ _, k =>
    let bodyCode := Stmt.layoutAll body (k + condition.code.length + 1)
    let otherwiseAt := k + condition.code.length + 1 + bodyCode.length + 1
    let otherwiseCode := Stmt.layoutAll otherwise otherwiseAt
    condition.code ++ jumpTo .jumpIfFalse otherwiseAt ::
      (bodyCode ++ jumpTo .jump (otherwiseAt + otherwiseCode.length) :: otherwiseCode)
  | .whileLoop condition body _ _, k =>
    loopLayout condition.code (fun i => Stmt.layoutAll body i) k
  | .forLoop clauses body _ _, k =>
    let init := optionalCode ForInit.code clauses.init
    let increment := optionalCode Binding.code clauses.increment
    init ++ loopLayout clauses.conditionCode (fun i => Stmt.layoutAll body i ++ increment)
      (k + init.length)

/-- The code of some statements, one after the other, from a given index on. -/
def Stmt.layoutAll : List Stmt → Nat → List Instruction
  | [], _ => []
  | s :: ss, k =>
    let first := s.layout k
    first ++ Stmt.layoutAll ss (k + first.length)

end

/-- The code of a program. -/
def programLayout (program : List Stmt) : List Instruction :=
  Stmt.layoutAll program 0 ++ [⟨.halt, none⟩]

theorem length_programLayout (program : List Stmt) :
    (programLayout program).length = (Stmt.layoutAll program 0).length + 1 := by
  rw [programLayout, List.length_append, List.length_singleton]

/-! ## Jumps forward

A jump back is appended with its target; only the jumps forward wait for a patch. -/

/-- The code from the index `k` on has a jump forward where `q` says, with the target `q` says. -/
def Forward (k : Nat) (code : List Instruction) (q : Patch) : Prop :=
  ∃ j t : Nat, q = ⟨(k + j : Nat), q.opcode, t⟩ ∧ q.opcode.isJump = true ∧ k + j < t ∧
    code[j]? = some (jumpTo q.opcode t)

/-- Code without jumps. -/
def Straight (code : List Instruction) : Prop :=
  ∀ i ∈ code, i.opcode.isJump = false

theorem Straight.append {xs ys : List Instruction} (hx : Straight xs) (hy : Straight ys) :
    Straight (xs ++ ys) := by
  intro i hi
  rcases List.mem_append.1 hi with h | h
  · exact hx i h
  · exact hy i h

theorem Straight.singleton {i : Instruction} (h : i.opcode.isJump = false) : Straight [i] := by
  intro j hj
  rw [List.mem_singleton.1 hj]
  exact h

theorem forward_append {k : Nat} {xs ys : List Instruction} {q : Patch} :
    Forward k (xs ++ ys) q ↔ Forward k xs q ∨ Forward (k + xs.length) ys q := by
  constructor
  · rintro ⟨j, t, hq, hop, hlt, hj⟩
    rcases Nat.lt_or_ge j xs.length with h | h
    · rw [List.getElem?_append_left h] at hj
      exact .inl ⟨j, t, hq, hop, hlt, hj⟩
    · rw [List.getElem?_append_right h] at hj
      have hi : k + xs.length + (j - xs.length) = k + j := by omega
      exact .inr ⟨j - xs.length, t, by rw [hi]; exact hq, hop, by omega, hj⟩
  · rintro (⟨j, t, hq, hop, hlt, hj⟩ | ⟨j, t, hq, hop, hlt, hj⟩)
    · have h : j < xs.length := (List.getElem?_eq_some_iff.1 hj).1
      exact ⟨j, t, hq, hop, hlt, by rw [List.getElem?_append_left h]; exact hj⟩
    · refine ⟨xs.length + j, t, by rw [← Nat.add_assoc]; exact hq, hop, by omega, ?_⟩
      rw [List.getElem?_append_right (by omega), Nat.add_sub_cancel_left]
      exact hj

theorem not_forward_of_straight {k : Nat} {code : List Instruction} (h : Straight code)
    (q : Patch) : ¬Forward k code q := by
  rintro ⟨j, t, -, hop, -, hj⟩
  have := h _ (List.mem_of_getElem? hj)
  rw [jumpTo, hop] at this
  exact absurd this (by simp)

theorem jumpTo_inj {op op' : Opcode} {t t' : Nat} (h : jumpTo op t = jumpTo op' t') :
    op = op' ∧ t = t' := by
  rw [jumpTo, jumpTo, Instruction.mk.injEq, Option.some.injEq] at h
  refine ⟨h.1, ?_⟩
  have hd : Nat.toDigits 10 t = Nat.toDigits 10 t' := by
    have := congrArg String.toList h.2
    simpa [Nat.toString_eq_ofList_toDigits] using this
  rw [← Nat.ofDigitChars_ten_toDigits (n := t), hd, Nat.ofDigitChars_ten_toDigits]

theorem forward_jumpTo {k t : Nat} {op : Opcode} (hop : op.isJump = true) (ht : k < t) {q : Patch} :
    Forward k [jumpTo op t] q ↔ q = ⟨k, op, t⟩ := by
  constructor
  · rintro ⟨j, t', hq, -, -, hj⟩
    obtain rfl : j = 0 := by
      have := (List.getElem?_eq_some_iff.1 hj).1
      simpa using this
    rw [List.getElem?_cons_zero, Option.some.injEq] at hj
    obtain ⟨hop', rfl⟩ := jumpTo_inj hj
    rw [hq, ← hop']
    rfl
  · rintro rfl
    exact ⟨0, t, rfl, hop, ht, rfl⟩

theorem not_forward_jumpTo {k t : Nat} {op : Opcode} (ht : t ≤ k) (q : Patch) :
    ¬Forward k [jumpTo op t] q := by
  rintro ⟨j, t', -, -, hlt, hj⟩
  obtain rfl : j = 0 := by
    have := (List.getElem?_eq_some_iff.1 hj).1
    simpa using this
  rw [List.getElem?_cons_zero, Option.some.injEq] at hj
  obtain ⟨-, rfl⟩ := jumpTo_inj hj
  omega

/-! ## The buffer as two lists -/

/-- The buffer with some code and some patches. -/
def bufferOf (code : List Instruction) (patches : List Patch) : CodeBuffer :=
  ⟨code.toArray, patches.toArray⟩

theorem bufferOf_toList (b : CodeBuffer) : bufferOf b.code.toList b.patches.toList = b := rfl

theorem run_emitAll (cs xs : List Instruction) (ps : List Patch) :
    (emitAll cs).run (bufferOf xs ps) = .ok () (bufferOf (xs ++ cs) ps) := by
  simp [emitAll, bufferOf, EStateM.run, modify, modifyGet, MonadStateOf.modifyGet,
    EStateM.modifyGet]

theorem run_emit (op : Opcode) (a : Option String) (xs : List Instruction) (ps : List Patch) :
    (emit op a).run (bufferOf xs ps) = .ok () (bufferOf (xs ++ [⟨op, a⟩]) ps) := by
  simp [emit, bufferOf, EStateM.run, modify, modifyGet, MonadStateOf.modifyGet, EStateM.modifyGet]

theorem run_nextIndex (xs : List Instruction) (ps : List Patch) :
    nextIndex.run (bufferOf xs ps) = .ok xs.length (bufferOf xs ps) := rfl

theorem run_reserve (op : Opcode) (xs : List Instruction) (ps : List Patch) :
    (reserve op).run (bufferOf xs ps) =
      .ok xs.length (bufferOf (xs ++ [⟨op, some placeholder⟩]) ps) := by
  rw [reserve, EStateM.run_bind, run_nextIndex]
  simp only [EStateM.run_bind, run_emit, EStateM.run_pure]

/-- A patch finds its placeholder, whatever stands before and after it. -/
theorem run_patch (op : Opcode) (t : Nat) (xs ys : List Instruction) (ps : List Patch) :
    (patch xs.length t).run (bufferOf (xs ++ ⟨op, some placeholder⟩ :: ys) ps) =
      .ok () (bufferOf (xs ++ jumpTo op t :: ys) (ps ++ [⟨xs.length, op, t⟩])) := by
  have hlt : xs.length < (xs ++ (⟨op, some placeholder⟩ : Instruction) :: ys).length := by simp
  have hplace : place? (xs ++ (⟨op, some placeholder⟩ : Instruction) :: ys).length xs.length
      = some xs.length := by rw [place?_natCast, if_pos hlt]
  simp only [patch, EStateM.run_bind, EStateM.run_get, bufferOf, List.size_toArray, hplace]
  simp [EStateM.run, set, MonadStateOf.set, EStateM.set, jumpTo]
  rfl

theorem run_patchHere (op : Opcode) (xs ys : List Instruction) (ps : List Patch) :
    (patchHere xs.length).run (bufferOf (xs ++ ⟨op, some placeholder⟩ :: ys) ps) =
      .ok () (bufferOf (xs ++ jumpTo op (xs.length + 1 + ys.length) :: ys)
        (ps ++ [⟨xs.length, op, (xs.length + 1 + ys.length : Nat)⟩])) := by
  have hlen : (xs ++ (⟨op, some placeholder⟩ : Instruction) :: ys).length
      = xs.length + 1 + ys.length := by simp; omega
  rw [patchHere, EStateM.run_bind, run_nextIndex, hlen]
  exact run_patch op _ xs ys ps

/-! ## Patches made once -/

/-- The patches `qs` are the jumps forward of the code from the index `k` on, each listed once. -/
structure PatchesOf (k : Nat) (code : List Instruction) (qs : List Patch) : Prop where
  nodup : (qs.map Patch.index).Nodup
  mem_iff : ∀ q, q ∈ qs ↔ Forward k code q

theorem Forward.index_lt {k : Nat} {code : List Instruction} {q : Patch} (h : Forward k code q) :
    (k : Int) ≤ q.index ∧ q.index < (k + code.length : Nat) := by
  obtain ⟨j, t, hq, -, -, hj⟩ := h
  have := (List.getElem?_eq_some_iff.1 hj).1
  rw [hq]
  constructor <;> simp only [Int.ofNat_le, Int.ofNat_lt] <;> omega

namespace PatchesOf

theorem straight {k : Nat} {code : List Instruction} (h : Straight code) : PatchesOf k code [] :=
  ⟨List.nodup_nil, fun q => iff_of_false List.not_mem_nil (not_forward_of_straight h q)⟩

theorem jump {k t : Nat} {op : Opcode} (hop : op.isJump = true) (ht : k < t) :
    PatchesOf k [jumpTo op t] [⟨k, op, t⟩] :=
  ⟨by simp, fun q => by rw [forward_jumpTo hop ht, List.mem_singleton]⟩

theorem jumpBack {k t : Nat} {op : Opcode} (ht : t ≤ k) : PatchesOf k [jumpTo op t] [] :=
  ⟨List.nodup_nil, fun q => iff_of_false List.not_mem_nil (not_forward_jumpTo ht q)⟩

theorem perm {k : Nat} {code : List Instruction} {qs rs : List Patch} (h : PatchesOf k code qs)
    (hp : qs.Perm rs) : PatchesOf k code rs :=
  ⟨(hp.map _).nodup_iff.1 h.nodup, fun q => by rw [← hp.mem_iff, h.mem_iff]⟩

theorem append {k i : Nat} {xs ys : List Instruction} {qs rs : List Patch} (hx : PatchesOf k xs qs)
    (hi : i = k + xs.length) (hy : PatchesOf i ys rs) : PatchesOf k (xs ++ ys) (qs ++ rs) := by
  subst hi
  refine ⟨?_, fun q => ?_⟩
  · rw [List.map_append, List.nodup_append]
    refine ⟨hx.nodup, hy.nodup, fun i hi j hj hij => ?_⟩
    obtain ⟨q, hq, rfl⟩ := List.mem_map.1 hi
    obtain ⟨r, hr, rfl⟩ := List.mem_map.1 hj
    have h1 := ((hx.mem_iff q).1 hq).index_lt
    have h2 := ((hy.mem_iff r).1 hr).index_lt
    omega
  · rw [List.mem_append, hx.mem_iff, hy.mem_iff, forward_append]

end PatchesOf

/-! ## Laying out code -/

/-- **The action appends the code**, at any index from `start` on; the code may depend on that
index.  What was in the buffer stays, and the patches made are the jumps forward of the new code. -/
def Lays (start : Nat) (action : Assembler Unit) (code : Nat → List Instruction) : Prop :=
  ∀ (xs : List Instruction) (ps : List Patch), start ≤ xs.length → ∃ qs : List Patch,
    action.run (bufferOf xs ps) = .ok () (bufferOf (xs ++ code xs.length) (ps ++ qs)) ∧
      PatchesOf xs.length (code xs.length) qs

namespace Lays

variable {start : Nat} {cond : List Instruction} {first second body otherwise : Assembler Unit}
  {f g : Nat → List Instruction}

theorem straight (start : Nat) {cs : List Instruction} (h : Straight cs) :
    Lays start (emitAll cs) fun _ => cs :=
  fun xs ps _ => ⟨[], by rw [run_emitAll, List.append_nil], .straight h⟩

theorem jumpBack (start : Nat) (op : Opcode) :
    Lays start (emit op (some (toString start))) fun _ => [jumpTo op start] :=
  fun xs ps hs => ⟨[], by rw [run_emit, List.append_nil]; rfl, .jumpBack hs⟩

theorem seq (hf : Lays start first f) (hg : Lays start second g) :
    Lays start (do first; second) fun k => f k ++ g (k + (f k).length) := by
  intro xs ps hs
  obtain ⟨qs, hrun, hqs⟩ := hf xs ps hs
  obtain ⟨rs, hrun', hrs⟩ := hg (xs ++ f xs.length) (ps ++ qs) (by simp; omega)
  rw [List.length_append] at hrun' hrs
  refine ⟨qs ++ rs, ?_, hqs.append rfl hrs⟩
  rw [EStateM.run_bind, hrun]
  simp only [hrun', List.append_assoc]

/-- A condition with a jump over a body. -/
theorem skip (hcond : Straight cond) (hbody : Lays start body f) :
    Lays start (do emitAll cond; let skip ← reserve .jumpIfFalse; body; patchHere skip) fun k =>
      cond ++ jumpTo .jumpIfFalse (k + cond.length + 1 + (f (k + cond.length + 1)).length) ::
        f (k + cond.length + 1) := by
  intro xs ps hs
  obtain ⟨qs, hrun, hqs⟩ := hbody (xs ++ cond ++ [⟨.jumpIfFalse, some placeholder⟩]) ps
    (by simp; omega)
  simp only [List.length_append, List.length_singleton] at hrun hqs
  have hpatch := run_patchHere .jumpIfFalse (xs ++ cond) (f (xs.length + cond.length + 1))
    (ps ++ qs)
  rw [List.length_append] at hpatch
  have hjump : PatchesOf (xs.length + cond.length) [jumpTo .jumpIfFalse _] _ :=
    .jump rfl
      (show _ < xs.length + cond.length + 1 + (f (xs.length + cond.length + 1)).length by omega)
  refine ⟨_, ?_, (PatchesOf.straight hcond).append rfl
    ((hjump.append rfl hqs).perm List.perm_append_comm)⟩
  simp only [EStateM.run_bind, run_emitAll, run_reserve, hrun, List.length_append]
  rw [List.append_assoc _ [_], List.singleton_append, hpatch]
  simp only [List.append_assoc, List.nil_append]

/-- A condition with a jump over a body to another body, and a jump over that one. -/
theorem branch (hcond : Straight cond) (hbody : Lays start body f)
    (hotherwise : Lays start otherwise g) :
    Lays start
      (do
        emitAll cond
        let skip ← reserve .jumpIfFalse
        body
        let leave ← reserve .jump
        patchHere skip
        otherwise
        patchHere leave) fun k =>
      let code := f (k + cond.length + 1)
      let otherwiseAt := k + cond.length + 1 + code.length + 1
      cond ++ jumpTo .jumpIfFalse otherwiseAt ::
        (code ++ jumpTo .jump (otherwiseAt + (g otherwiseAt).length) :: g otherwiseAt) := by
  intro xs ps hs
  obtain ⟨qs, hrun, hqs⟩ := hbody (xs ++ cond ++ [⟨.jumpIfFalse, some placeholder⟩]) ps
    (by simp; omega)
  simp only [List.length_append, List.length_singleton] at hrun hqs
  simp only
  generalize f (xs.length + cond.length + 1) = code at hrun hqs ⊢
  generalize hat : xs.length + cond.length + 1 + code.length = leaveAt
  have hskip : PatchesOf (xs.length + cond.length) [jumpTo .jumpIfFalse (leaveAt + 1)] _ :=
    .jump rfl (by omega)
  -- The first patch is made when the second jump is already there.
  have hpatch := run_patchHere .jumpIfFalse (xs ++ cond) (code ++ [⟨.jump, some placeholder⟩])
    (ps ++ qs)
  simp only [List.length_append, List.length_singleton, ← Nat.add_assoc, hat] at hpatch
  obtain ⟨rs, hrun', hrs⟩ := hotherwise
    (xs ++ cond ++ jumpTo .jumpIfFalse (leaveAt + 1) :: (code ++ [⟨.jump, some placeholder⟩]))
    (ps ++ qs ++ [⟨(xs.length + cond.length : Nat), .jumpIfFalse, (leaveAt + 1 : Nat)⟩])
    (by simp; omega)
  have hlen : (xs ++ cond ++ jumpTo .jumpIfFalse (leaveAt + 1) ::
      (code ++ [(⟨.jump, some placeholder⟩ : Instruction)])).length = leaveAt + 1 := by
    simp; omega
  rw [hlen] at hrun' hrs
  have hleave : PatchesOf leaveAt [jumpTo .jump (leaveAt + 1 + (g (leaveAt + 1)).length)] _ :=
    .jump rfl (by omega)
  have hpatch' := run_patchHere .jump (xs ++ cond ++ jumpTo .jumpIfFalse (leaveAt + 1) :: code)
    (g (leaveAt + 1))
    (ps ++ qs ++ [⟨(xs.length + cond.length : Nat), .jumpIfFalse, (leaveAt + 1 : Nat)⟩] ++ rs)
  have hlen' : (xs ++ cond ++ jumpTo .jumpIfFalse (leaveAt + 1) :: code).length = leaveAt := by
    simp; omega
  rw [hlen'] at hpatch'
  have hpatches := (hskip.append rfl (hqs.append hat.symm (hleave.append rfl hrs))).perm
    ((List.perm_append_comm_assoc _ _ _).trans
      ((List.perm_append_comm.append_left _).append_left _))
  refine ⟨_, ?_, (PatchesOf.straight hcond).append rfl hpatches⟩
  simp only [EStateM.run_bind, run_emitAll, run_reserve, hrun, List.length_append,
    List.length_singleton, hat]
  rw [List.append_assoc _ [_], List.singleton_append, List.append_assoc, List.cons_append, hpatch]
  simp only [List.append_assoc, List.cons_append, List.nil_append] at hrun' hpatch' ⊢
  simp only [hrun', hpatch']

/-- A condition with a jump past the loop, a body, and a jump back to the condition. -/
theorem loop (hcond : Straight cond) (hbody : ∀ start, Lays start body f) :
    Lays start (assembleLoop cond body) (loopLayout cond f) := by
  intro xs ps _
  obtain ⟨qs, hrun, hqs⟩ := Lays.skip hcond ((hbody xs.length).seq (jumpBack xs.length .jump)) xs ps
    (Nat.le_refl _)
  refine ⟨qs, ?_, ?_⟩
  · rw [assembleLoop, EStateM.run_bind, run_nextIndex]
    simp only [bind_assoc] at hrun
    simpa [loopLayout, Nat.add_assoc] using hrun
  · simpa [loopLayout, Nat.add_assoc] using hqs

end Lays

/-! ## Statements -/

theorem Literal.isJump_code (v : Literal) : v.code.opcode.isJump = false := by
  cases v <;> rfl

mutual

theorem Expr.straight_code : ∀ e : Expr, Straight e.code
  | .literal v _ => .singleton v.isJump_code
  | .variable _ _ => .singleton rfl
  | .unary _ e _ => e.straight_code.append (.singleton rfl)
  | .binary l _ r _ => (l.straight_code.append r.straight_code).append (.singleton rfl)
  | .array es _ => (Expr.straight_codeAll es).append (.singleton rfl)
  | .element _ i _ =>
    (Straight.singleton (i := ⟨.load, _⟩) rfl).append (i.straight_code.append (.singleton rfl))

theorem Expr.straight_codeAll : ∀ es : List Expr, Straight (Expr.codeAll es)
  | [] => fun _ h => absurd h List.not_mem_nil
  | e :: es => e.straight_code.append (Expr.straight_codeAll es)

end

theorem Expr.code_length_pos (e : Expr) : 0 < e.code.length := by
  cases e <;> simp only [Expr.code, List.length_append, List.length_cons] <;> omega

theorem Expr.length_le_codeAll : ∀ es : List Expr, es.length ≤ (Expr.codeAll es).length
  | [] => Nat.le_refl 0
  | e :: es => by
    have := e.code_length_pos
    have := Expr.length_le_codeAll es
    rw [Expr.codeAll, List.length_append, List.length_cons]
    omega

theorem Binding.straight_code (b : Binding) : Straight b.code :=
  b.value.straight_code.append (.singleton rfl)

theorem straight_optionalCode {α : Type} {code : α → List Instruction}
    (h : ∀ a, Straight (code a)) : ∀ o : Option α, Straight (optionalCode code o)
  | none => fun _ h => absurd h List.not_mem_nil
  | some a => h a

theorem ForInit.straight_code : ∀ i : ForInit, Straight i.code
  | .declare b => b.straight_code
  | .assign b => b.straight_code

theorem ForClauses.straight_conditionCode (c : ForClauses) : Straight c.conditionCode := by
  unfold ForClauses.conditionCode
  split
  · exact Expr.straight_code _
  · exact .singleton rfl

mutual

/-- **Assembling a statement lays out its layout.** -/
theorem Stmt.lays_assemble (start : Nat) : ∀ s : Stmt, Lays start s.assemble s.layout
  | .declare b => .straight start b.straight_code
  | .assign b => .straight start b.straight_code
  | .assignElement _ i v _ =>
    .straight start ((v.straight_code.append i.straight_code).append (.singleton rfl))
  | .print v _ => .straight start (v.straight_code.append (.singleton rfl))
  | .block body _ => Stmt.lays_assembleAll start body
  | .ifThen c body _ _ => .skip c.straight_code (Stmt.lays_assembleAll start body)
  | .ifElse c body _ otherwise _ _ =>
    .branch c.straight_code (Stmt.lays_assembleAll start body)
      (Stmt.lays_assembleAll start otherwise)
  | .whileLoop c body _ _ => .loop c.straight_code fun start => Stmt.lays_assembleAll start body
  | .forLoop c body _ _ =>
    (Lays.straight start (straight_optionalCode ForInit.straight_code c.init)).seq
      (.loop c.straight_conditionCode fun start => (Stmt.lays_assembleAll start body).seq
        (.straight start (straight_optionalCode Binding.straight_code c.increment)))

theorem Stmt.lays_assembleAll (start : Nat) :
    ∀ ss : List Stmt, Lays start (Stmt.assembleAll ss) (Stmt.layoutAll ss)
  | [] => fun xs ps _ => ⟨[], by simp [Stmt.assembleAll, Stmt.layoutAll],
      .straight fun _ h => absurd h List.not_mem_nil⟩
  | s :: ss => (Stmt.lays_assemble start s).seq (Stmt.lays_assembleAll start ss)

end

/-! ## Targets -/

/-- Every jump of the code has its target between two indexes, both included. -/
def TargetsIn (low high : Nat) (code : List Instruction) : Prop :=
  ∀ i ∈ code, i.opcode.isJump = true → ∃ t, low ≤ t ∧ t ≤ high ∧ i.operand = some (toString t)

namespace TargetsIn

variable {low low' high high' : Nat} {xs ys : List Instruction}

theorem straight (h : Straight xs) : TargetsIn low high xs := by
  intro i hi hop
  rw [h i hi] at hop
  exact absurd hop (by simp)

theorem nil : TargetsIn low high [] :=
  fun _ h => absurd h List.not_mem_nil

theorem cons {op : Opcode} {t : Nat} (hl : low ≤ t) (hh : t ≤ high) (h : TargetsIn low high xs) :
    TargetsIn low high (jumpTo op t :: xs) := by
  intro i hi hop
  rcases List.mem_cons.1 hi with rfl | hi
  · exact ⟨t, hl, hh, rfl⟩
  · exact h i hi hop

theorem mono (h : TargetsIn low high xs) (hl : low' ≤ low) (hh : high ≤ high') :
    TargetsIn low' high' xs := by
  intro i hi hop
  obtain ⟨t, h1, h2, ht⟩ := h i hi hop
  exact ⟨t, by omega, by omega, ht⟩

theorem append (hx : TargetsIn low high xs) (hy : TargetsIn low high ys) :
    TargetsIn low high (xs ++ ys) := by
  intro i hi
  rcases List.mem_append.1 hi with h | h
  · exact hx i h
  · exact hy i h

theorem loop {cond : List Instruction} {f : Nat → List Instruction} {k : Nat}
    (hcond : Straight cond) (hbody : ∀ i, TargetsIn i (i + (f i).length) (f i)) :
    TargetsIn k (k + (loopLayout cond f k).length) (loopLayout cond f k) := by
  have h := hbody (k + cond.length + 1)
  simp only [loopLayout, List.length_append, List.length_cons, List.length_nil]
  refine (straight hcond).append (.cons ?_ ?_ ((h.mono ?_ ?_).append (.cons ?_ ?_ .nil))) <;> omega

end TargetsIn

mutual

/-- The jumps of a statement stay within it, or go to the place right after it. -/
theorem Stmt.targetsIn_layout :
    ∀ (s : Stmt) (k : Nat), TargetsIn k (k + (s.layout k).length) (s.layout k)
  | .declare b, _ => .straight b.straight_code
  | .assign b, _ => .straight b.straight_code
  | .assignElement _ i v _, _ =>
    .straight ((v.straight_code.append i.straight_code).append (.singleton rfl))
  | .print v _, _ => .straight (v.straight_code.append (.singleton rfl))
  | .block body _, k => Stmt.targetsIn_layoutAll body k
  | .ifThen c body _ _, k => by
    have h := Stmt.targetsIn_layoutAll body (k + c.code.length + 1)
    simp only [Stmt.layout, List.length_append, List.length_cons]
    refine (TargetsIn.straight c.straight_code).append (.cons ?_ ?_ (h.mono ?_ ?_)) <;> omega
  | .ifElse c body _ otherwise _ _, k => by
    have h := Stmt.targetsIn_layoutAll body (k + c.code.length + 1)
    have h' := Stmt.targetsIn_layoutAll otherwise
      (k + c.code.length + 1 + (Stmt.layoutAll body (k + c.code.length + 1)).length + 1)
    simp only [Stmt.layout, List.length_append, List.length_cons]
    refine (TargetsIn.straight c.straight_code).append
      (.cons ?_ ?_ ((h.mono ?_ ?_).append (.cons ?_ ?_ (h'.mono ?_ ?_)))) <;> omega
  | .whileLoop c body _ _, _ => .loop c.straight_code fun i => Stmt.targetsIn_layoutAll body i
  | .forLoop c body _ _, k => by
    have hinit := straight_optionalCode ForInit.straight_code c.init
    have hinc := straight_optionalCode Binding.straight_code c.increment
    have hbody : ∀ i, TargetsIn i
        (i + (Stmt.layoutAll body i ++ optionalCode Binding.code c.increment).length)
        (Stmt.layoutAll body i ++ optionalCode Binding.code c.increment) := fun i =>
      ((Stmt.targetsIn_layoutAll body i).mono (Nat.le_refl i)
        (by rw [List.length_append]; omega)).append (.straight hinc)
    have h := TargetsIn.loop (k := k + (optionalCode ForInit.code c.init).length)
      c.straight_conditionCode hbody
    simp only [Stmt.layout, List.length_append]
    refine (TargetsIn.straight hinit).append (h.mono ?_ ?_) <;> omega

theorem Stmt.targetsIn_layoutAll : ∀ (ss : List Stmt) (k : Nat),
    TargetsIn k (k + (Stmt.layoutAll ss k).length) (Stmt.layoutAll ss k)
  | [], _ => .nil
  | s :: ss, k => by
    have h := s.targetsIn_layout k
    have h' := Stmt.targetsIn_layoutAll ss (k + (s.layout k).length)
    simp only [Stmt.layoutAll, List.length_append]
    refine (h.mono ?_ ?_).append (h'.mono ?_ ?_) <;> omega

end

/-! ## Programs -/

theorem exists_run_assembleProgram (program : List Stmt) :
    ∃ qs, (assembleProgram program).run {} = .ok () (bufferOf (programLayout program) qs) := by
  obtain ⟨qs, hrun, -⟩ := Stmt.lays_assembleAll 0 program [] [] (Nat.le_refl 0)
  refine ⟨qs, ?_⟩
  have hrun' : (Stmt.assembleAll program).run {} =
      .ok () (bufferOf (Stmt.layoutAll program 0) qs) := hrun
  rw [assembleProgram, EStateM.run_bind, hrun']
  exact run_emit .halt none _ qs

/-- A program is assembled without a refusal. -/
theorem run_assembleProgram (program : List Stmt) :
    (assembleProgram program).run {} = .ok () (assemble program) := by
  obtain ⟨qs, hrun⟩ := exists_run_assembleProgram program
  rw [assemble, Assembler.buffer, hrun]

/-- The code of a program is its layout. -/
theorem assemble_code (program : List Stmt) :
    (assemble program).code = (programLayout program).toArray := by
  obtain ⟨qs, hrun⟩ := exists_run_assembleProgram program
  rw [assemble, Assembler.buffer, hrun]
  rfl

theorem targetsIn_programLayout (program : List Stmt) :
    TargetsIn 0 ((programLayout program).length - 1) (programLayout program) := by
  have h := Stmt.targetsIn_layoutAll program 0
  rw [Nat.zero_add] at h
  rw [programLayout, List.length_append, List.length_singleton, Nat.add_sub_cancel]
  exact h.append (.straight (.singleton rfl))

/-- **Jump patching implements the layout.**  Whatever the buffer holds, a statement is assembled
without a refusal, its layout is appended to the code as it was, and the patches made are the jumps
forward of that layout, each made once.  In the code of a program every jump goes to an instruction,
and its operand is the index of that instruction in plain decimal. -/
theorem assemble_eq_layout :
    (∀ (s : Stmt) (b : CodeBuffer), ∃ qs : List Patch,
      s.assemble.run b = .ok ()
        ⟨b.code ++ (s.layout b.code.size).toArray, b.patches ++ qs.toArray⟩ ∧
      (qs.map Patch.index).Nodup ∧
      ∀ q, q ∈ qs ↔ Forward b.code.size (s.layout b.code.size) q) ∧
    ∀ program : List Stmt,
      (assembleProgram program).run {} = .ok () (assemble program) ∧
      (assemble program).code = (programLayout program).toArray ∧
      ∀ i ∈ (assemble program).code, i.opcode.isJump = true →
        ∃ t < (assemble program).code.size, i.operand = some (toString t) := by
  refine ⟨fun s b => ?_, fun program => ⟨run_assembleProgram program, assemble_code program, ?_⟩⟩
  · obtain ⟨qs, hrun, hqs⟩ := s.lays_assemble 0 b.code.toList b.patches.toList (Nat.zero_le _)
    rw [bufferOf_toList, Array.length_toList] at hrun
    rw [Array.length_toList] at hqs
    refine ⟨qs, ?_, hqs.nodup, hqs.mem_iff⟩
    rw [hrun]
    simp [bufferOf]
  · intro i hi hop
    rw [assemble_code, List.mem_toArray] at hi
    obtain ⟨t, -, ht, hoperand⟩ := targetsIn_programLayout program i hi hop
    refine ⟨t, ?_, hoperand⟩
    have hpos : 0 < (programLayout program).length := by simp [programLayout]
    rw [assemble_code, List.size_toArray]
    omega

end Scriptlet
