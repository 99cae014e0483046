import Mathlib
import Scriptlet.Proofs.Machine.Effect
import Scriptlet.Proofs.Relabeling

/-!
# Runs under other names

The machine asks of a name only whether it is another name or the same.  So two programs that differ
by an injective renaming of their variables run in lockstep: after every step the counters, the
stacks, the heaps and the lines printed are equal, and the variables are the renamed ones.

The argument goes through the rules of `Effect` and `Refusal`, of which three are about a variable:
looking one up, giving it a value, and writing to an element of the array it holds.

## What is here

* `State.rename`, `Fault.rename`, `Ending.rename` — a state, a fault and an ending under other
  names.
* `Effect.rename`, `Refusal.rename` — one instruction, under other names.
* `run_rename`, `trajectory_rename` — whole runs.
* `lockstep_of_rename` — **names carry no meaning**, in the check of declarations, in the code, and
  in its runs.
-/

set_option autoImplicit false
namespace Scriptlet.Machine

/-! ## Variables -/

/-- The variables under other names. -/
def Store.rename (f : String → String) (s : Store) : Store :=
  s.map (Prod.map (Option.map f) id)

@[simp] theorem Store.rename_cons (f : String → String) (name : Option String) (v : Value)
    (rest : Store) : rename f ((name, v) :: rest) = (name.map f, v) :: rest.rename f := rfl

section

variable {f : String → String} (hf : Function.Injective f)
include hf

theorem Store.get?_rename (s : Store) (name : Option String) :
    (s.rename f).get? (name.map f) = s.get? name := by
  induction s with
  | nil => rfl
  | cons p rest ih =>
    obtain ⟨n, v⟩ := p
    have hname : (name.map f == n.map f) = (name == n) := by
      rw [Bool.eq_iff_iff, beq_iff_eq, beq_iff_eq, (Option.map_injective hf).eq_iff]
    rw [get?, get?, rename_cons, List.lookup_cons, List.lookup_cons, hname]
    cases name == n
    · exact ih
    · rfl

theorem Store.put_rename (s : Store) (name : Option String) (v : Value) :
    (s.put name v).rename f = (s.rename f).put (name.map f) v := by
  induction s with
  | nil => rfl
  | cons p rest ih =>
    obtain ⟨n, w⟩ := p
    by_cases h : n = name
    · simp [put, h]
    · have hmap : n.map f ≠ name.map f := fun heq => h (Option.map_injective hf heq)
      simp [put, h, hmap, ih]

end

/-! ## States, faults and endings -/

/-- The state with its variables under other names, and all else as it is. -/
def State.rename (f : String → String) (s : State) : State :=
  { s with store := s.store.rename f }

/-- The fault under another name, if it is about a variable. -/
def Fault.rename (f : String → String) : Fault → Fault
  | .undefined name => .undefined (name.map f)
  | .storeToNonArray name => .storeToNonArray (name.map f)
  | fault => fault

/-- The error at the same index under another name. -/
def Error.rename (f : String → String) (e : Error) : Error :=
  { e with fault := e.fault.rename f }

/-- The ending under other names. -/
def Ending.rename (f : String → String) : Ending → Ending
  | .failed e => .failed (e.rename f)
  | ending => ending

/-- What a counter points to, under other names. -/
def Fetched.rename (f : String → String) : Fetched → Fetched
  | .instruction i => .instruction (i.rename f)
  | place => place

section

variable {f : String → String}

theorem Fault.rename_of_name? {fault : Fault} (h : fault.name? = none) :
    fault.rename f = fault := by
  cases fault <;> first | rfl | cases h

/-- The place of an element does not depend on the name of the variable that holds the array; only
the fault that it holds none does. -/
theorem slotOf_rename (h : Heap) (name : Option String) (array : Option Value) (index : Value) :
    slotOf h (name.map f) array index = (slotOf h name array index).mapError (Fault.rename f) := by
  unfold slotOf
  split
  · rename_i address
    cases hslot : slot (h.elements address).length index with
    | ok place => rfl
    | error fault =>
      have hplain := (Plain.slot _ index fault hslot).2
      show Except.error fault = Except.error (fault.rename f)
      rw [Fault.rename_of_name? hplain]
  · rfl

/-! ## Instructions -/

section

variable {size : Nat} {s s' : State} {i : Instruction} {fault : Fault}

theorem takesName_of_constant (h : i.opcode ∈ constantOpcodes) : i.opcode.takesName = false := by
  simp only [constantOpcodes, List.mem_cons, List.not_mem_nil, or_false] at h
  rcases h with h | h | h | h | h <;> rw [h] <;> rfl

theorem takesName_of_isJump {op : Opcode} (h : op.isJump = true) : op.takesName = false :=
  Bool.eq_false_iff.2 fun hname => nomatch h.symm.trans (Opcode.isJump_of_takesName hname)

/-- **An instruction has the same effect under other names.** -/
theorem Effect.rename [Limits] (hf : Function.Injective f) (h : Effect size s i s') :
    Effect size (s.rename f) (i.rename f) (s'.rename f) := by
  cases h with
  | constant hop hv =>
    rw [Instruction.rename_of_not_takesName (takesName_of_constant hop)]
    exact .constant hop hv
  | load hv => exact .load ((s.store.get?_rename hf _).trans hv)
  | @store name v rest hs =>
    have heffect : Effect size (s.rename f) ⟨.store, name.map f⟩
        { s.rename f with
          counter := s.counter + 1, stack := rest,
          store := (s.store.rename f).put (name.map f) v } := .store hs
    rwa [← s.store.put_rename hf] at heffect
  | unary hs hr => exact .unary hs hr
  | binary hs hr => exact .binary hs hr
  | jump ht => exact .jump ht
  | jumpIfFalse hs ht => exact .jumpIfFalse hs ht
  | print hs hline => exact .print hs hline
  | makeArray hn hle => exact .makeArray hn hle
  | loadElement hs hr => exact .loadElement hs hr
  | @storeElement name index v address place rest hs hplace =>
    have hplace' : slotOf s.heap (name.map f) ((s.store.rename f).get? (name.map f)) index =
        .ok (address, place) := by
      rw [s.store.get?_rename hf, slotOf_rename, hplace]
      rfl
    exact .storeElement hs hplace'

/-- **An instruction is refused for the same reason under other names.** -/
theorem Refusal.rename [Limits] (hf : Function.Injective f) (h : Refusal size s i fault s') :
    Refusal size (s.rename f) (i.rename f) (fault.rename f) (s'.rename f) := by
  cases h with
  | constant hop hv =>
    rw [Instruction.rename_of_not_takesName (takesName_of_constant hop),
      Fault.rename_of_name? (name?_of_constant hv)]
    exact .constant hop hv
  | undefined hnone => exact .undefined ((s.store.get?_rename hf _).trans hnone)
  | underflow hs ht =>
    refine .underflow (by rwa [Instruction.rename_opcode]) fun hop => ?_
    rw [Instruction.rename_opcode] at hop
    rw [Instruction.rename_of_not_takesName (by rw [hop]; rfl)]
    exact ht hop
  | unary hs hr =>
    rw [Fault.rename_of_name? (Plain.applyUnary _ _ fault hr).2]
    exact .unary hs hr
  | binary hs hr =>
    rw [Fault.rename_of_name? (Plain.applyBinary _ _ _ _ fault hr).2]
    exact .binary hs hr
  | target hop ht =>
    rw [Instruction.rename_of_not_takesName (takesName_of_isJump hop),
      Fault.rename_of_name? (name?_of_jumpTarget ht)]
    exact .target hop ht
  | print hs hline =>
    rw [Fault.rename_of_name? (Plain.shown _ _ fault hline).2]
    exact .print hs hline
  | count hn =>
    rw [Fault.rename_of_name? (name?_of_integerOperand hn)]
    exact .count hn
  | tooFew hn hlt => exact .tooFew hn hlt
  | loadElement hs hr =>
    rw [Fault.rename_of_name? (Plain.loadElement _ _ _ fault hr).2]
    exact .loadElement hs hr
  | @storeElement name index v rest fault hs hplace =>
    have hplace' : slotOf s.heap (name.map f) ((s.store.rename f).get? (name.map f)) index =
        .error (fault.rename f) := by
      rw [s.store.get?_rename hf, slotOf_rename, hplace]
      rfl
    exact .storeElement hs hplace'
  | halt => exact .halt

theorem run_execute_rename [Limits] (hf : Function.Injective f)
    (h : (execute size i).run s = .ok () s') :
    (execute size (i.rename f)).run (s.rename f) = .ok () (s'.rename f) :=
  ((effect_of_run h).rename hf).run

theorem run_execute_rename_error [Limits] (hf : Function.Injective f)
    (h : (execute size i).run s = .error fault s') :
    (execute size (i.rename f)).run (s.rename f) = .error (fault.rename f) (s'.rename f) :=
  ((refusal_of_run h).rename hf).run

end

/-! ## Runs -/

theorem fetch_rename (program : Array Instruction) (s : State) :
    fetch (program.map (Instruction.rename f)) (s.rename f).counter =
      (fetch program s.counter).rename f := by
  have hplace : (place? program.size s.counter).bind ((program.map (Instruction.rename f))[·]?) =
      ((place? program.size s.counter).bind (program[·]?)).map (Instruction.rename f) := by
    simp only [Array.getElem?_map, Option.map_bind, Function.comp_def]
  rw [fetch, fetch, Array.size_map, State.rename, hplace]
  cases (place? program.size s.counter).bind (program[·]?) with
  | some i => rfl
  | none =>
    dsimp only [Option.map_none]
    split <;> rfl

/-- **A run under other names ends in the same way**, and leaves the renamed state. -/
theorem run_rename [Limits] (hf : Function.Injective f) (program : Array Instruction) (n : Nat)
    (s : State) : run (program.map (Instruction.rename f)) n (s.rename f) =
      ((run program n s).1.rename f, (run program n s).2.rename f) := by
  fun_induction run program n s with
  | case1 n s hfetch | case2 n s hfetch =>
    rw [run, fetch_rename, hfetch]
    rfl
  | case3 n s i hfetch hop =>
    rw [run, fetch_rename, hfetch]
    simp only [Fetched.rename, Instruction.rename_opcode, if_pos hop, Ending.rename]
  | case4 s i hfetch hop =>
    rw [run, fetch_rename, hfetch]
    simp only [Fetched.rename, Instruction.rename_opcode, if_neg hop, Ending.rename]
  | case5 s i hfetch hop n u s' hrun ih =>
    rw [run, fetch_rename, hfetch]
    simp only [Fetched.rename, Instruction.rename_opcode, if_neg hop, Array.size_map,
      run_execute_rename hf hrun, ih]
  | case6 s i hfetch hop n fault s' hrun =>
    rw [run, fetch_rename, hfetch]
    simp only [Fetched.rename, Instruction.rename_opcode, if_neg hop, Array.size_map,
      run_execute_rename_error hf hrun]
    rfl

/-- **A run under other names goes through the renamed states.** -/
theorem trajectory_rename [Limits] (hf : Function.Injective f) (program : Array Instruction)
    (n : Nat) (s : State) : trajectory (program.map (Instruction.rename f)) n (s.rename f) =
      (trajectory program n s).map (State.rename f) := by
  fun_induction trajectory program n s with
  | case1 s => rfl
  | case2 n s hfetch | case3 n s hfetch =>
    rw [trajectory, fetch_rename, hfetch]
    rfl
  | case4 n s i hfetch hop =>
    rw [trajectory, fetch_rename, hfetch]
    simp only [Fetched.rename, Instruction.rename_opcode, if_pos hop, List.map_nil]
  | case5 n s i hfetch hop u s' hrun ih =>
    rw [trajectory, fetch_rename, hfetch]
    simp only [Fetched.rename, Instruction.rename_opcode, if_neg hop, Array.size_map,
      run_execute_rename hf hrun, ih, List.map_cons]
  | case6 n s i hfetch hop fault s' hrun =>
    rw [trajectory, fetch_rename, hfetch]
    simp only [Fetched.rename, Instruction.rename_opcode, if_neg hop, Array.size_map,
      run_execute_rename_error hf hrun, List.map_nil]

/-- **Names carry no meaning.**  Under an injective renaming of its variables a program has the same
violations with the names replaced, and the same code with the names in it replaced.  From an empty
state on, its run goes through the states of the original run with the variables renamed, and after
any number of steps it is out of steps, ended or failed just as the original is: at the same index,
for the same reason up to the name. -/
theorem lockstep_of_rename [Limits] (hf : Function.Injective f) (program : List Stmt) :
    (Scope.check {} (program.map (Stmt.relabel { name := f }))).violations =
      (Scope.check {} program).violations.map (Violation.relabel { name := f }) ∧
    (assemble (program.map (Stmt.relabel { name := f }))).code =
      (assemble program).code.map (Instruction.rename f) ∧
    ∀ n,
      trajectory (assemble (program.map (Stmt.relabel { name := f }))).code n {} =
        (trajectory (assemble program).code n {}).map (State.rename f) ∧
      run (assemble (program.map (Stmt.relabel { name := f }))).code n {} =
        ((run (assemble program).code n {}).1.rename f,
          (run (assemble program).code n {}).2.rename f) := by
  have hcode := assemble_relabel { name := f } program
  have hcheck := Scope.check_relabel (r := { name := f }) hf {} program
  have hstart : Scope.relabel { name := f } {} = {} := by simp [Scope.relabel]
  rw [hstart] at hcheck
  refine ⟨congrArg Scope.violations hcheck, hcode, fun n => ?_⟩
  rw [hcode]
  exact ⟨trajectory_rename hf _ n {}, run_rename hf _ n {}⟩

/-- A variable without a value is missed at the same place under another name. -/
theorem lockstep_of_rename_undefined :
    let _ : Limits := ⟨20, 20⟩
    let plain : List Stmt := [.assign ⟨"x", .literal .null 1, 1⟩, .print (.variable "y" 2) 2]
    let marked : List Stmt := [.assign ⟨"$x", .literal .null 1, 1⟩, .print (.variable "$y" 2) 2]
    (run (assemble plain).code 9 {}).1 = .failed ⟨.undefined (some "y"), 2⟩ ∧
      (run (assemble marked).code 9 {}).1 = .failed ⟨.undefined (some "$y"), 2⟩ := by
  intro limits plain marked
  have hrun : (run (assemble plain).code 9 {}).1 = .failed ⟨.undefined (some "y"), 2⟩ := rfl
  have hf : Function.Injective ("$" ++ ·) := fun _ _ => (String.append_right_inj "$").1
  have hrename := ((lockstep_of_rename hf plain).2.2 9).2
  exact ⟨hrun, (congrArg Prod.fst hrename).trans (congrArg (Ending.rename ("$" ++ ·)) hrun)⟩

end

end Scriptlet.Machine
