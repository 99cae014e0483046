import Scriptlet.Instruction

/-!
# The code buffer

Code is assembled into a buffer.  An instruction is appended at the end; a jump whose target is not
yet known is appended with the placeholder operand and patched later.  A patch is accepted only
where the operand still is the placeholder, so an operand is written at most once after its
instruction was appended.

* `emit`, `reserve` — append an instruction, or a jump to be patched.
* `patch` — give a reserved jump its target.  An index may count back from the end.
-/

set_option autoImplicit false
namespace Scriptlet

/-- A patch that was made: at which index, on which opcode, to which target. -/
structure Patch where
  index : Int
  opcode : Opcode
  target : Int
  deriving DecidableEq, Repr

/-- Why a patch is refused. -/
inductive PatchFault where
  | outOfRange
  | alreadyPatched (index : Int) (opcode : Opcode)
  deriving DecidableEq, Repr

/-- The wording of a refusal. -/
def PatchFault.message : PatchFault → String
  | outOfRange => "list index out of range"
  | alreadyPatched index opcode =>
    "Instruction " ++ toString index ++ " (" ++ opcode.name ++ ") was already patched"

/-- The operand of a jump that waits for its target. -/
def placeholder : String := "0"

/-- The instructions so far, and the patches made to them in order. -/
structure CodeBuffer where
  code : Array Instruction := #[]
  patches : Array Patch := #[]
  deriving Repr

/-- Actions on the buffer; after a refusal the buffer is as it was. -/
abbrev Assembler := EStateM PatchFault CodeBuffer

/-- Appends an instruction. -/
def emit (opcode : Opcode) (operand : Option String) : Assembler Unit :=
  modify fun b => { b with code := b.code.push ⟨opcode, operand⟩ }

/-- Appends some instructions. -/
def emitAll (instructions : List Instruction) : Assembler Unit :=
  modify fun b => { b with code := b.code.appendList instructions }

/-- The index of the next instruction. -/
def nextIndex : Assembler Nat :=
  return (← get).code.size

/-- Appends a jump to be patched and returns its index. -/
def reserve (opcode : Opcode) : Assembler Nat := do
  let index ← nextIndex
  emit opcode (some placeholder)
  return index

/-- Gives the instruction at an index a target, if its operand is the placeholder. -/
def patch (index target : Int) : Assembler Unit := do
  let b ← get
  match place? b.code.size index with
  | none => throw .outOfRange
  | some i =>
    match b.code[i]? with
    | none => throw .outOfRange
    | some instruction =>
      if instruction.operand = some placeholder then
        let patched := { instruction with operand := some (toString target) }
        set { b with
          code := b.code.setIfInBounds i patched
          patches := b.patches.push ⟨index, instruction.opcode, target⟩ : CodeBuffer }
      else
        throw (.alreadyPatched index instruction.opcode)

/-- Gives a reserved jump the index of the next instruction as its target. -/
def patchHere (index : Nat) : Assembler Unit := do
  patch index (← nextIndex)

end Scriptlet
