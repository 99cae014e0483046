import Scriptlet.Machine.Execute

/-!
# Running a program

A run executes instructions until it rests on a halt, the counter leaves the program, an instruction
stops with a fault, or the steps allowed are used up.  A failing instruction takes a step, a halt
takes none.  A counter below zero counts back from the end of the program; no instruction leads
there, but a run may be started there.

* `fetch program counter` — what the counter points to.
* `run program steps s` — how the run from a state ends, and the state it leaves.
* `trajectory program steps s` — the states after each instruction that succeeded.
-/

set_option autoImplicit false
namespace Scriptlet.Machine

/-- What a counter points to: an instruction, or a place after or before all of them. -/
inductive Fetched where
  | instruction (i : Instruction)
  | after
  | before

/-- What a counter points to in a program. -/
def fetch (program : Array Instruction) (counter : Int) : Fetched :=
  match (place? program.size counter).bind (program[·]?) with
  | some i => .instruction i
  | none => if counter < 0 then .before else .after

theorem fetch_of_lt {program : Array Instruction} {k : Nat} (h : k < program.size) :
    fetch program k = .instruction program[k] := by
  simp [fetch, place?_natCast, h]

theorem fetch_of_le {program : Array Instruction} {k : Nat} (h : program.size ≤ k) :
    fetch program k = .after := by
  have hk : ¬k < program.size := by omega
  have h0 : ¬((k : Int) < 0) := by omega
  simp [fetch, place?_natCast, hk, h0]

/-- How a run ends. -/
inductive Ending where
  | halted
  | leftProgram
  | lost
  | failed (error : Error)
  | outOfSteps

/-- The error of a run that failed. -/
def Ending.error? : Ending → Option Error
  | failed e => some e
  | _ => none

variable [Limits]

/-- The run of a program from a state, for a number of steps. -/
def run (program : Array Instruction) : Nat → State → Ending × State
  | steps, s =>
    match fetch program s.counter with
    | .after => (.leftProgram, s)
    | .before => (.lost, s)
    | .instruction i =>
      if i.opcode = .halt then (.halted, s)
      else match steps with
        | 0 => (.outOfSteps, s)
        | steps + 1 =>
          match (execute program.size i).run s with
          | .ok _ s' => run program steps s'
          | .error fault s' => (.failed ⟨fault, s'.counter⟩, s')

/-- The states after each instruction that succeeded, for a number of steps. -/
def trajectory (program : Array Instruction) : Nat → State → List State
  | 0, _ => []
  | steps + 1, s =>
    match fetch program s.counter with
    | .after | .before => []
    | .instruction i =>
      if i.opcode = .halt then []
      else match (execute program.size i).run s with
        | .ok _ s' => s' :: trajectory program steps s'
        | .error _ _ => []

end Scriptlet.Machine
