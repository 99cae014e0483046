import Scriptlet.Proofs.Layout

/-!
# Code in another place

The targets of jumps are indexes into the whole code, so the code of a statement depends on where it
stands.  It depends on nothing else: in code that begins `m` places later every jump goes `m` places
further, and that is the only difference.  So two programs can be assembled apart and put together
afterwards.

## What is here

* `Instruction.relocate m` — the instruction in code that begins `m` places later.
* `Stmt.layout_add`, `Stmt.layoutAll_add` — **the layout at a later index is the relocated layout**.
* `assemble_append` — the code of one program after another.
-/

set_option autoImplicit false
namespace Scriptlet

/-! ## Relocating -/

/-- A target, as the text of a number, `m` places further; any other text stays as it is. -/
def shiftTarget (m : Nat) (text : String) : String :=
  match text.toNat? with
  | some t => toString (t + m)
  | none => text

/-- The instruction in code that begins `m` places later: a jump goes `m` places further, and every
other instruction stays as it is. -/
def Instruction.relocate (m : Nat) (i : Instruction) : Instruction :=
  if i.opcode.isJump then { i with operand := i.operand.map (shiftTarget m) } else i

theorem shiftTarget_toString (m t : Nat) : shiftTarget m (toString t) = toString (t + m) := by
  have hread : (toString t).toNat? = some t := Nat.toNat?_repr t
  rw [shiftTarget, hread]

namespace Instruction

theorem relocate_jumpTo (op : Opcode) (hop : op.isJump = true) (m t : Nat) :
    (jumpTo op t).relocate m = jumpTo op (t + m) := by
  simp only [relocate, jumpTo, hop, if_true, Option.map_some, shiftTarget_toString]

theorem relocate_of_not_isJump {i : Instruction} (h : i.opcode.isJump = false) (m : Nat) :
    i.relocate m = i := by
  simp [relocate, h]

end Instruction

theorem Straight.map_relocate {code : List Instruction} (h : Straight code) (m : Nat) :
    code.map (Instruction.relocate m) = code := by
  have hid : ∀ i ∈ code, i.relocate m = id i := fun i hi =>
    Instruction.relocate_of_not_isJump (h i hi) m
  rw [List.map_congr_left hid, List.map_id]

/-! ## Layouts

Each target of a layout is the index it begins at and a distance, and the distances do not depend on
that index because the lengths of the parts do not: relocating keeps them. -/

section Layouts

variable (m : Nat)

theorem loopLayout_add {cond : List Instruction} {f : Nat → List Instruction} {k : Nat}
    (hcond : Straight cond) (hbody : ∀ i, f (i + m) = (f i).map (Instruction.relocate m)) :
    loopLayout cond f (k + m) = (loopLayout cond f k).map (Instruction.relocate m) := by
  have hat : k + m + cond.length + 1 = k + cond.length + 1 + m := by omega
  simp only [loopLayout, hat, hbody, List.length_map, List.map_append, List.map_cons, List.map_nil,
    hcond.map_relocate, Instruction.relocate_jumpTo .jumpIfFalse rfl,
    Instruction.relocate_jumpTo .jump rfl]
  congr 3
  omega

mutual

/-- **The layout of a statement at a later index is the relocated layout.** -/
theorem Stmt.layout_add : ∀ (s : Stmt) (k : Nat),
    s.layout (k + m) = (s.layout k).map (Instruction.relocate m)
  | .declare b, _ => (b.straight_code.map_relocate m).symm
  | .assign b, _ => (b.straight_code.map_relocate m).symm
  | .assignElement _ i v _, _ =>
    (((v.straight_code.append i.straight_code).append (.singleton rfl)).map_relocate m).symm
  | .print v _, _ => ((v.straight_code.append (.singleton rfl)).map_relocate m).symm
  | .block body _, k => Stmt.layoutAll_add body k
  | .ifThen c body _ _, k => by
    have hat : k + m + c.code.length + 1 = k + c.code.length + 1 + m := by omega
    have hbody := Stmt.layoutAll_add body (k + c.code.length + 1)
    simp only [Stmt.layout, hat, hbody, List.length_map, List.map_append, List.map_cons,
      c.straight_code.map_relocate, Instruction.relocate_jumpTo .jumpIfFalse rfl]
    congr 3
    omega
  | .ifElse c body _ otherwise _ _, k => by
    have hat : k + m + c.code.length + 1 = k + c.code.length + 1 + m := by omega
    have hbody := Stmt.layoutAll_add body (k + c.code.length + 1)
    simp only [Stmt.layout, hat, hbody, List.length_map]
    generalize Stmt.layoutAll body (k + c.code.length + 1) = bodyCode
    generalize k + c.code.length + 1 = bodyAt
    have hat' : bodyAt + m + bodyCode.length + 1 = bodyAt + bodyCode.length + 1 + m := by omega
    have hotherwise := Stmt.layoutAll_add otherwise (bodyAt + bodyCode.length + 1)
    simp only [hat', hotherwise, List.length_map, List.map_append,
      List.map_cons, c.straight_code.map_relocate, Instruction.relocate_jumpTo .jumpIfFalse rfl,
      Instruction.relocate_jumpTo .jump rfl]
    congr 5
    omega
  | .whileLoop c body _ _, _ =>
    loopLayout_add m c.straight_code fun i => Stmt.layoutAll_add body i
  | .forLoop c body _ _, k => by
    have hinit := straight_optionalCode ForInit.straight_code c.init
    have hincrement := straight_optionalCode Binding.straight_code c.increment
    have hat : k + m + (optionalCode ForInit.code c.init).length =
        k + (optionalCode ForInit.code c.init).length + m := by omega
    have hbody (i : Nat) : Stmt.layoutAll body (i + m) ++ optionalCode Binding.code c.increment =
        (Stmt.layoutAll body i ++ optionalCode Binding.code c.increment).map
          (Instruction.relocate m) := by
      rw [List.map_append, hincrement.map_relocate, Stmt.layoutAll_add body i]
    rw [Stmt.layout, hat, loopLayout_add m c.straight_conditionCode hbody, Stmt.layout,
      List.map_append, hinit.map_relocate]

theorem Stmt.layoutAll_add : ∀ (ss : List Stmt) (k : Nat),
    Stmt.layoutAll ss (k + m) = (Stmt.layoutAll ss k).map (Instruction.relocate m)
  | [], _ => rfl
  | s :: ss, k => by
    have hat : k + m + (s.layout k).length = k + (s.layout k).length + m := by omega
    rw [Stmt.layoutAll, s.layout_add k, List.length_map, hat,
      Stmt.layoutAll_add ss (k + (s.layout k).length), Stmt.layoutAll, List.map_append]

end

end Layouts

theorem Stmt.layoutAll_append (ss ts : List Stmt) (k : Nat) :
    Stmt.layoutAll (ss ++ ts) k =
      Stmt.layoutAll ss k ++ Stmt.layoutAll ts (k + (Stmt.layoutAll ss k).length) := by
  induction ss generalizing k with
  | nil => simp [Stmt.layoutAll]
  | cons s ss ih =>
    simp only [List.cons_append, Stmt.layoutAll, ih, List.append_assoc, List.length_append,
      Nat.add_assoc]

/-! ## Programs -/

/-- The halt at the end of a program is not part of the code of its statements. -/
theorem programLayout_append (p q : List Stmt) :
    programLayout (p ++ q) = Stmt.layoutAll p 0 ++
      (programLayout q).map (Instruction.relocate (Stmt.layoutAll p 0).length) := by
  have hhalt : Straight [(⟨.halt, none⟩ : Instruction)] := .singleton rfl
  rw [programLayout, Stmt.layoutAll_append, Stmt.layoutAll_add, programLayout, List.map_append,
    hhalt.map_relocate, List.append_assoc]

/-- **One program after another.**  The code of `p ++ q` is the code of `p` without its halt and
then the code of `q`, relocated by the length of the code before it.  Relocating adds that length to
the target of each jump of `q` and leaves every other instruction as it is. -/
theorem assemble_append (p q : List Stmt) :
    let m := (assemble p).code.size - 1
    (assemble p).code.back? = some ⟨.halt, none⟩ ∧
    (assemble (p ++ q)).code =
      (assemble p).code.pop ++ (assemble q).code.map (Instruction.relocate m) ∧
    ∀ i ∈ (assemble q).code,
      if i.opcode.isJump then
        ∃ t : Nat, i.operand = some (toString t) ∧
          i.relocate m = ⟨i.opcode, some (toString (t + m))⟩
      else i.relocate m = i := by
  have hsize : (assemble p).code.size - 1 = (Stmt.layoutAll p 0).length := by
    rw [assemble_code, List.size_toArray, length_programLayout, Nat.add_sub_cancel]
  have hpop : (assemble p).code.pop = (Stmt.layoutAll p 0).toArray := by
    rw [assemble_code, List.pop_toArray, programLayout, List.dropLast_concat]
  simp only [hsize, hpop]
  refine ⟨?_, ?_, fun i hi => ?_⟩
  · simp [assemble_code, programLayout]
  · simp only [assemble_code, programLayout_append, List.map_toArray, List.append_toArray]
  · split
    · next hop =>
      rw [assemble_code, List.mem_toArray] at hi
      obtain ⟨t, -, -, hoperand⟩ := targetsIn_programLayout q i hi hop
      have hi : i = jumpTo i.opcode t := by rw [jumpTo, ← hoperand]
      exact ⟨t, hoperand, by rw [hi]; exact Instruction.relocate_jumpTo _ hop _ t⟩
    · next hop => exact Instruction.relocate_of_not_isJump (Bool.eq_false_iff.2 hop) _

end Scriptlet
