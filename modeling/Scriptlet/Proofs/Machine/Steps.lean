import Scriptlet.Machine.Run
import Scriptlet.Proofs.Decimal.RoundTrip
import Scriptlet.Proofs.Layout

/-!
# Steps of the machine

A run is a row of steps, and may end with an instruction that fails.  This file takes the runs of
the machine apart into steps, and says once for each kind of instruction what a step of it does to
the state, so that nothing later opens `execute`.

* `Step`, `Fails` — one instruction succeeds, or stops with a fault.
* `Steps program n s s'` — `n` steps lead from `s` to `s'`.
* `run_of_steps`, `outOfSteps_of_steps` — a run of the machine, in steps.
* `run_execute_literal`, `run_execute_binary`, … — the effect of each instruction, as an equation
  between states.

Operands are text.  A constant, a count and a target are read back from the text that assembling
writes; for counts and targets this needs them to have no more digits than the machine reads.
-/

set_option autoImplicit false
namespace Scriptlet.Machine

/-! ## Steps -/

section Steps

variable {program : Array Instruction} {s s' s'' : State} {n m : Nat} {f : Fault}

theorem getElem?_of_fetch {k : Nat} {i : Instruction} (h : fetch program k = .instruction i) :
    program[k]? = some i := by
  rcases Nat.lt_or_ge k program.size with hk | hk
  · rw [fetch_of_lt hk, Fetched.instruction.injEq] at h
    rw [Array.getElem?_eq_getElem hk, h]
  · rw [fetch_of_le hk] at h
    exact nomatch h

theorem mem_of_fetch {c : Int} {i : Instruction} (h : fetch program c = .instruction i) :
    i ∈ program := by
  rw [fetch] at h
  cases hj : (place? program.size c).bind (program[·]?) with
  | some j =>
    rw [hj, Fetched.instruction.injEq] at h
    obtain ⟨k, -, hk⟩ := Option.bind_eq_some_iff.1 hj
    exact h ▸ Array.mem_of_getElem? hk
  | none =>
    by_cases hc : c < 0 <;> simp [hj, hc] at h

variable [Limits]

/-- The instruction at the counter is executed. -/
def Step (program : Array Instruction) (s s' : State) : Prop :=
  ∃ i, fetch program s.counter = .instruction i ∧ i.opcode ≠ .halt ∧
    (execute program.size i).run s = .ok () s'

/-- The instruction at the counter stops with a fault. -/
def Fails (program : Array Instruction) (s : State) (f : Fault) (s' : State) : Prop :=
  ∃ i, fetch program s.counter = .instruction i ∧ i.opcode ≠ .halt ∧
    (execute program.size i).run s = .error f s'

/-- A number of instructions are executed, one after the other. -/
inductive Steps (program : Array Instruction) : Nat → State → State → Prop where
  | refl (s : State) : Steps program 0 s s
  | head {n : Nat} {s s' s'' : State} (first : Step program s s') (rest : Steps program n s' s'') :
      Steps program (n + 1) s s''

theorem Step.steps (h : Step program s s') : Steps program 1 s s' :=
  .head h (.refl s')

theorem Steps.trans (h : Steps program n s s') (h' : Steps program m s' s'') :
    Steps program (n + m) s s'' := by
  induction h with
  | refl => rwa [Nat.zero_add]
  | head first _ ih =>
    rw [Nat.add_right_comm]
    exact .head first (ih h')

theorem run_of_step (h : Step program s s') : run program (m + 1) s = run program m s' := by
  obtain ⟨i, hf, hi, hrun⟩ := h
  rw [run, hf]
  simp only [if_neg hi, hrun]

theorem run_of_steps (h : Steps program n s s') : run program (n + m) s = run program m s' := by
  induction h with
  | refl => rw [Nat.zero_add]
  | head first _ ih => rw [Nat.add_right_comm, run_of_step first, ih]

/-- While there are steps to come the run is not over. -/
theorem outOfSteps_of_steps (h : Steps program n s s') (hm : m < n) :
    (run program m s).1 = .outOfSteps := by
  induction h generalizing m with
  | refl => omega
  | head first _ ih =>
    cases m with
    | zero =>
      obtain ⟨i, hf, hi, -⟩ := first
      rw [run, hf]
      simp only [if_neg hi]
    | succ m =>
      rw [run_of_step first]
      exact ih (by omega)

theorem run_of_fails (h : Fails program s f s') :
    run program (m + 1) s = (.failed ⟨f, s'.counter⟩, s') := by
  obtain ⟨i, hf, hi, hrun⟩ := h
  rw [run, hf]
  simp only [if_neg hi, hrun]

theorem run_of_halt {i : Instruction} (hf : fetch program s.counter = .instruction i)
    (hi : i.opcode = .halt) : run program m s = (.halted, s) := by
  rw [run, hf]
  simp only [if_pos hi]

/-- A state rests, or its next instruction is executed or stops with a fault. -/
theorem rests_or_proceeds (program : Array Instruction) (s : State) :
    (∀ n, run program n s = run program 0 s) ∨
      (run program 0 s).1 = .outOfSteps ∧
        ((∃ s', Step program s s') ∨ ∃ f s', Fails program s f s') := by
  cases hf : fetch program s.counter with
  | after => exact .inl fun n => by cases n <;> simp only [run, hf]
  | before => exact .inl fun n => by cases n <;> simp only [run, hf]
  | instruction i =>
    by_cases hi : i.opcode = .halt
    · exact .inl fun n => by rw [run_of_halt hf hi, run_of_halt hf hi]
    · refine .inr ⟨by simp only [run, hf, if_neg hi], ?_⟩
      cases hrun : (execute program.size i).run s with
      | ok u s' => exact .inl ⟨s', i, hf, hi, hrun⟩
      | error f s' => exact .inr ⟨f, s', i, hf, hi, hrun⟩

/-- A run that is over stays so, however many steps it is given. -/
theorem run_add_of_ended (h : (run program n s).1 ≠ .outOfSteps) :
    run program (n + m) s = run program n s := by
  induction n generalizing s with
  | zero =>
    rcases rests_or_proceeds program s with hrest | ⟨hout, -⟩
    · rw [hrest, hrest 0]
    · exact absurd hout h
  | succ n ih =>
    rw [Nat.add_right_comm]
    rcases rests_or_proceeds program s with hrest | ⟨-, ⟨s', hstep⟩ | ⟨f, s', hfail⟩⟩
    · rw [hrest, hrest (n + 1)]
    · rw [run_of_step hstep] at h ⊢
      rw [run_of_step hstep, ih h]
    · rw [run_of_fails hfail, run_of_fails hfail]

/-- A run of no steps leaves the state as it is. -/
theorem run_zero_snd (program : Array Instruction) (s : State) : (run program 0 s).2 = s := by
  rw [run]
  split
  · rfl
  · rfl
  · split <;> rfl

/-- A run that is out of steps goes on from where it is. -/
theorem run_add_of_outOfSteps (h : (run program n s).1 = .outOfSteps) :
    run program (n + m) s = run program m (run program n s).2 := by
  induction n generalizing s with
  | zero => rw [run_zero_snd, Nat.zero_add]
  | succ n ih =>
    rw [Nat.add_right_comm]
    rcases rests_or_proceeds program s with hrest | ⟨-, ⟨s', hstep⟩ | ⟨f, s', hfail⟩⟩
    · rw [hrest (n + 1), run_zero_snd, hrest, hrest m]
    · rw [run_of_step hstep] at h ⊢
      rw [run_of_step hstep, ih h]
    · rw [run_of_fails hfail] at h
      exact Ending.noConfusion h

/-- Two runs from one state that are both over have ended alike. -/
theorem run_eq_of_ended (hn : (run program n s).1 ≠ .outOfSteps)
    (hm : (run program m s).1 ≠ .outOfSteps) : run program n s = run program m s := by
  rw [← run_add_of_ended hn (m := m), Nat.add_comm, run_add_of_ended hm]

/-- A run takes some steps and then rests, is out of steps, or fails. -/
theorem exists_steps_of_run (program : Array Instruction) (n : Nat) (s : State) :
    ∃ m t, Steps program m s t ∧
      (run program n s = run program 0 t ∨
        ∃ f s', Fails program t f s' ∧ run program n s = (.failed ⟨f, s'.counter⟩, s')) := by
  induction n generalizing s with
  | zero => exact ⟨0, s, .refl s, .inl rfl⟩
  | succ n ih =>
    rcases rests_or_proceeds program s with hrest | ⟨-, ⟨s', hstep⟩ | ⟨f, s', hfail⟩⟩
    · exact ⟨0, s, .refl s, .inl (hrest _)⟩
    · obtain ⟨m, t, hsteps, hend⟩ := ih s'
      rw [← run_of_step hstep] at hend
      exact ⟨m + 1, t, .head hstep hsteps, hend⟩
    · exact ⟨0, s, .refl s, .inr ⟨f, s', hfail, run_of_fails hfail⟩⟩

/-- A run that failed has come to an instruction that fails. -/
theorem exists_fails_of_run {e : Error} (h : (run program n s).1 = .failed e) :
    ∃ m t s', Steps program m s t ∧ Fails program t e.fault s' := by
  obtain ⟨m, t, hsteps, hend⟩ := exists_steps_of_run program n s
  rcases hend with hrest | ⟨f, s', hfails, hrun⟩
  · -- no instruction is executed in no steps, so none fails
    rw [hrest, run] at h
    split at h
    · exact nomatch h
    · exact nomatch h
    · split at h <;> exact nomatch h
  · rw [hrun] at h
    obtain rfl := Ending.failed.inj h
    exact ⟨m, t, s', hsteps, hfails⟩

end Steps

/-! ## Operands -/

section Operands

variable {size : Nat}

/-- A constant is read back from the text of its instruction. -/
theorem constant_code (v : Literal) : constant v.code = .ok (.ofLiteral v) := by
  cases v with
  | number x => simp only [constant, Literal.code, Option.bind_some, Decimal.readNumber?_write,
      Value.ofLiteral]
  | bool b => cases b <;> rfl
  | char c => simp [constant, Literal.code, Value.ofLiteral]
  | null | string => rfl

/-- The opcodes that push a constant. -/
def constantOpcodes : List Opcode :=
  [.constNumber, .constString, .constChar, .constBool, .constNull]

/-- Ten digits are well within the limit. -/
theorem le_digitLimit {n : Nat} (h : n ≤ 10 ^ 10) : n ≤ 10 ^ Decimal.integerDigitLimit :=
  h.trans (Nat.pow_le_pow_right (by decide) (by decide))

theorem integerOperand_toString {n : Nat} (op : Opcode) (h : n < 10 ^ Decimal.integerDigitLimit) :
    integerOperand ⟨op, some (toString n)⟩ = .ok (n : Int) := by
  simp only [integerOperand, Option.bind_some, Decimal.readInteger?_toString h]

theorem jumpTarget_jumpTo {t : Nat} (op : Opcode) (h : t < 10 ^ Decimal.integerDigitLimit)
    (hsize : t ≤ size) : jumpTarget size (jumpTo op t) = .ok t := by
  have hcond : (0 ≤ (t : Int) && (t : Int) ≤ size) = true := by
    simp only [Bool.and_eq_true, decide_eq_true_eq]
    omega
  rw [jumpTarget, jumpTo, integerOperand_toString op h]
  show (if (0 ≤ (t : Int) && (t : Int) ≤ size) = true then (return (t : Int).toNat) else _) = _
  rw [if_pos hcond]
  rfl

/-- A jump goes to the target that its operand writes, and nowhere else. -/
theorem eq_of_jumpTarget {op : Opcode} {t t' : Nat}
    (h : jumpTarget size ⟨op, some (toString t)⟩ = .ok t') : t' = t := by
  rw [jumpTarget, integerOperand, Option.bind_some] at h
  cases hread : Decimal.readInteger? (toString t) with
  | none =>
    rw [hread] at h
    exact nomatch h
  | some target =>
    rw [hread, Decimal.eq_of_readInteger?_toString hread] at h
    change (if (0 ≤ (t : Int) && (t : Int) ≤ size) = true then _ else _) = _ at h
    split at h
    · exact (Except.ok.inj h).symm
    · exact nomatch h

end Operands

/-! ## What instructions do -/

section Execute

variable [Limits] {size : Nat} {k : Int} {stack : List Value} {store : Store} {heap : Heap}
  {output : Array String} {written : String}

theorem run_execute_constant {i : Instruction} (hop : i.opcode ∈ constantOpcodes) (s : State) :
    (execute size i).run s =
      match constant i with
      | .ok v => .ok () { s with counter := s.counter + 1, stack := v :: s.stack }
      | .error f => .error f s := by
  obtain ⟨op, operand⟩ := i
  simp only [constantOpcodes, List.mem_cons, List.not_mem_nil, or_false] at hop
  cases hv : constant ⟨op, operand⟩ <;>
    rcases hop with rfl | rfl | rfl | rfl | rfl <;> rw [execute, hv] <;> rfl

theorem run_execute_literal (v : Literal) :
    (execute size v.code).run ⟨k, stack, store, heap, output, written⟩ =
      .ok () ⟨k + 1, .ofLiteral v :: stack, store, heap, output, written⟩ := by
  rw [run_execute_constant (by cases v <;> simp [Literal.code, constantOpcodes]), constant_code]

theorem run_execute_load (name : Option String) :
    (execute size ⟨.load, name⟩).run ⟨k, stack, store, heap, output, written⟩ =
      match store.get? name with
      | some v => .ok () ⟨k + 1, v :: stack, store, heap, output, written⟩
      | none => .error (.undefined name) ⟨k, stack, store, heap, output, written⟩ := by
  simp only [execute, EStateM.run_bind, EStateM.run_get]
  cases store.get? name <;> rfl

theorem run_execute_store (name : Option String) (v : Value) :
    (execute size ⟨.store, name⟩).run ⟨k, v :: stack, store, heap, output, written⟩ =
      .ok () ⟨k + 1, stack, store.put name v, heap, output, written⟩ := rfl

theorem run_execute_unary (op : UnaryOp) (operand : Option String) (v : Value) :
    (execute size ⟨.unary op, operand⟩).run ⟨k, v :: stack, store, heap, output, written⟩ =
      match applyUnary op v with
      | .ok r => .ok () ⟨k + 1, r :: stack, store, heap, output, written⟩
      | .error f => .error f ⟨k, stack, store, heap, output, written⟩ := by
  show ((do yield (← result (applyUnary op v))) : Action Unit).run
    ⟨k, stack, store, heap, output, written⟩ = _
  cases applyUnary op v <;> rfl

theorem run_execute_binary (op : BinaryOp) (operand : Option String) (a b : Value) :
    (execute size ⟨.binary op, operand⟩).run ⟨k, b :: a :: stack, store, heap, output, written⟩ =
      match applyBinary heap op a b with
      | .ok r => .ok () ⟨k + 1, r :: stack, store, heap, output, written⟩
      | .error f => .error f ⟨k, stack, store, heap, output, written⟩ := by
  show ((do yield (← result (applyBinary heap op a b))) : Action Unit).run
    ⟨k, stack, store, heap, output, written⟩ = _
  cases applyBinary heap op a b <;> rfl

theorem run_execute_print (operand : Option String) (v : Value) :
    (execute size ⟨.print, operand⟩).run ⟨k, v :: stack, store, heap, output, written⟩ =
      match shown heap v with
      | .ok line => .ok () ⟨k + 1, stack, store, heap, output.push line,
        written ++ line ++ "\n"⟩
      | .error f => .error f ⟨k, stack, store, heap, output, written⟩ := by
  show ((do
      let line ← result (shown heap v)
      printLine line
      proceed) : Action Unit).run ⟨k, stack, store, heap, output, written⟩ = _
  cases shown heap v <;> rfl

theorem run_execute_loadElement (operand : Option String) (array index : Value) :
    (execute size ⟨.loadElement, operand⟩).run
        ⟨k, index :: array :: stack, store, heap, output, written⟩ =
      match loadElement heap array index with
      | .ok r => .ok () ⟨k + 1, r :: stack, store, heap, output, written⟩
      | .error f => .error f ⟨k, stack, store, heap, output, written⟩ := by
  show ((do yield (← result (loadElement heap array index))) : Action Unit).run
    ⟨k, stack, store, heap, output, written⟩ = _
  cases loadElement heap array index <;> rfl

theorem run_execute_storeElement (name : Option String) (index v : Value) :
    (execute size ⟨.storeElement, name⟩).run
        ⟨k, index :: v :: stack, store, heap, output, written⟩ =
      match slotOf heap name (store.get? name) index with
      | .ok (address, i) => .ok () ⟨k + 1, stack, store, heap.write address i v, output, written⟩
      | .error f => .error f ⟨k, stack, store, heap, output, written⟩ := by
  show ((do
      let place ← result (slotOf heap name (store.get? name) index)
      set (⟨k, stack, store, heap.write place.1 place.2 v, output, written⟩ : State)
      proceed) : Action Unit).run ⟨k, stack, store, heap, output, written⟩ = _
  cases slotOf heap name (store.get? name) index <;> rfl

theorem run_execute_jump_eq (operand : Option String) (s : State) :
    (execute size ⟨.jump, operand⟩).run s =
      match jumpTarget size ⟨.jump, operand⟩ with
      | .ok t => .ok () { s with counter := t }
      | .error f => .error f s := by
  show ((do goTo (← result (jumpTarget size ⟨.jump, operand⟩))) : Action Unit).run s = _
  cases jumpTarget size ⟨.jump, operand⟩ <;> rfl

theorem run_execute_jumpIfFalse_eq (operand : Option String) (s : State) :
    (execute size ⟨.jumpIfFalse, operand⟩).run s =
      match jumpTarget size ⟨.jumpIfFalse, operand⟩, s.stack with
      | .ok t, v :: rest =>
        .ok () { s with counter := if v.truthy then s.counter + 1 else t, stack := rest }
      | .ok _, [] => .error .stackUnderflow s
      | .error f, _ => .error f s := by
  obtain ⟨k, stack, store, heap, output, written⟩ := s
  show ((do
      let target ← result (jumpTarget size ⟨.jumpIfFalse, operand⟩)
      let condition ← pop
      if condition.truthy then proceed else goTo target) : Action Unit).run _ = _
  cases jumpTarget size ⟨.jumpIfFalse, operand⟩ with
  | error f => rfl
  | ok t =>
    cases stack with
    | nil => rfl
    | cons v rest =>
      show ((if v.truthy then proceed else goTo t) : Action Unit).run
        ⟨k, rest, store, heap, output, written⟩ = _
      dsimp only
      cases v.truthy <;> rfl

theorem run_execute_makeArray_eq (operand : Option String) (s : State) :
    (execute size ⟨.makeArray, operand⟩).run s =
      match integerOperand ⟨.makeArray, operand⟩ with
      | .ok count =>
        if count < 0 || (s.stack.length : Int) < count then
          .error (.tooFewElements count s.stack.length) s
        else
          .ok () { s with
            counter := s.counter + 1
            stack := .array s.heap.size :: s.stack.drop count.toNat
            heap := s.heap.alloc (s.stack.take count.toNat).reverse }
      | .error f => .error f s := by
  show (makeArray ⟨.makeArray, operand⟩).run s = _
  rw [makeArray]
  cases integerOperand ⟨.makeArray, operand⟩ with
  | error f => rfl
  | ok count =>
    show ((if count < 0 || (s.stack.length : Int) < count then _ else _) : Action Unit).run s = _
    dsimp only
    by_cases hcount : (count < 0 || (s.stack.length : Int) < count) = true
    · rw [if_pos hcount, if_pos hcount]
      rfl
    · rw [if_neg hcount, if_neg hcount]
      rfl

theorem run_execute_jump {t : Nat} (h : t < 10 ^ Decimal.integerDigitLimit) (hsize : t ≤ size) :
    (execute size (jumpTo .jump t)).run ⟨k, stack, store, heap, output, written⟩ =
      .ok () ⟨t, stack, store, heap, output, written⟩ := by
  have htarget := jumpTarget_jumpTo .jump h hsize
  rw [jumpTo] at htarget ⊢
  rw [run_execute_jump_eq, htarget]

theorem run_execute_jumpIfFalse {t : Nat} (h : t < 10 ^ Decimal.integerDigitLimit)
    (hsize : t ≤ size) (v : Value) :
    (execute size (jumpTo .jumpIfFalse t)).run ⟨k, v :: stack, store, heap, output, written⟩ =
      .ok () ⟨if v.truthy then k + 1 else t, stack, store, heap, output, written⟩ := by
  have htarget := jumpTarget_jumpTo .jumpIfFalse h hsize
  rw [jumpTo] at htarget ⊢
  rw [run_execute_jumpIfFalse_eq, htarget]

theorem run_execute_makeArray_of_count {operand : Option String} {n : Nat}
    (hn : integerOperand ⟨.makeArray, operand⟩ = .ok (n : Int)) (hle : n ≤ stack.length) :
    (execute size ⟨.makeArray, operand⟩).run ⟨k, stack, store, heap, output, written⟩ =
      .ok () ⟨k + 1, .array heap.size :: stack.drop n, store, heap.alloc (stack.take n).reverse,
        output, written⟩ := by
  have hcond : ¬((n : Int) < 0 || (stack.length : Int) < n) = true := by
    simp only [Bool.or_eq_true, decide_eq_true_eq]
    omega
  rw [run_execute_makeArray_eq, hn]
  dsimp only
  rw [if_neg hcond, Int.toNat_natCast]

theorem run_execute_makeArray {n : Nat} (h : n < 10 ^ Decimal.integerDigitLimit)
    (hn : n ≤ stack.length) :
    (execute size ⟨.makeArray, some (toString n)⟩).run ⟨k, stack, store, heap, output, written⟩ =
      .ok () ⟨k + 1, .array heap.size :: stack.drop n, store, heap.alloc (stack.take n).reverse,
        output, written⟩ :=
  run_execute_makeArray_of_count (integerOperand_toString .makeArray h) hn

end Execute

end Scriptlet.Machine
