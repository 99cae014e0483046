import Scriptlet.Proofs.Machine.Steps

/-!
# What an instruction can do

The equations of `Steps` say what an instruction does to a state of the right shape.  This file
turns them round: from the fact that an instruction succeeded or stopped, whatever code it is a part
of and whatever its operand, to the shape of the state and the change made to it.

* `Effect size s i s'` — **the change that an instruction makes**, one rule for each kind of
  instruction.
* `Refusal size s i f s'` — **why an instruction stops and what it leaves behind**, one rule for
  each reason.
* `run_execute_cases` — an instruction has its effect or is refused; `effect_of_run` and
  `refusal_of_run` are its two halves, `Effect.run` and `Refusal.run` the ways back.
* `Fault.isOfValues`, `Sound` — operations on values fail for reasons that lie in the values.
* `Fault.name?`, `Plain` — and all but one of them for reasons that no variable has a part in.
* `Failure s i f` — the fault `f` is that a variable to be looked up has no value, or another one.
-/

set_option autoImplicit false
namespace Scriptlet.Machine

/-! ## Success -/

/-- The change that an instruction of a program of a size makes to a state when it succeeds. -/
inductive Effect [Limits] (size : Nat) (s : State) : Instruction → State → Prop where
  | constant {i : Instruction} {v : Value} (hop : i.opcode ∈ constantOpcodes)
      (hv : constant i = .ok v) :
      Effect size s i { s with counter := s.counter + 1, stack := v :: s.stack }
  | load {name : Option String} {v : Value} (hv : s.store.get? name = some v) :
      Effect size s ⟨.load, name⟩ { s with counter := s.counter + 1, stack := v :: s.stack }
  | store {name : Option String} {v : Value} {rest : List Value} (hs : s.stack = v :: rest) :
      Effect size s ⟨.store, name⟩
        { s with counter := s.counter + 1, stack := rest, store := s.store.put name v }
  | unary {op : UnaryOp} {operand : Option String} {v r : Value} {rest : List Value}
      (hs : s.stack = v :: rest) (hr : applyUnary op v = .ok r) :
      Effect size s ⟨.unary op, operand⟩
        { s with counter := s.counter + 1, stack := r :: rest }
  | binary {op : BinaryOp} {operand : Option String} {a b r : Value} {rest : List Value}
      (hs : s.stack = b :: a :: rest) (hr : applyBinary s.heap op a b = .ok r) :
      Effect size s ⟨.binary op, operand⟩
        { s with counter := s.counter + 1, stack := r :: rest }
  | jump {operand : Option String} {t : Nat} (ht : jumpTarget size ⟨.jump, operand⟩ = .ok t) :
      Effect size s ⟨.jump, operand⟩ { s with counter := t }
  | jumpIfFalse {operand : Option String} {t : Nat} {v : Value} {rest : List Value}
      (hs : s.stack = v :: rest) (ht : jumpTarget size ⟨.jumpIfFalse, operand⟩ = .ok t) :
      Effect size s ⟨.jumpIfFalse, operand⟩
        { s with counter := if v.truthy then s.counter + 1 else t, stack := rest }
  | print {operand : Option String} {v : Value} {line : String} {rest : List Value}
      (hs : s.stack = v :: rest) (hline : shown s.heap v = .ok line) :
      Effect size s ⟨.print, operand⟩
        { s with
          counter := s.counter + 1
          stack := rest
          output := s.output.push line
          written := s.written ++ line ++ "\n" }
  | makeArray {operand : Option String} {n : Nat}
      (hn : integerOperand ⟨.makeArray, operand⟩ = .ok (n : Int)) (hle : n ≤ s.stack.length) :
      Effect size s ⟨.makeArray, operand⟩
        { s with
          counter := s.counter + 1
          stack := .array s.heap.size :: s.stack.drop n
          heap := s.heap.alloc (s.stack.take n).reverse }
  | loadElement {operand : Option String} {array index r : Value} {rest : List Value}
      (hs : s.stack = index :: array :: rest) (hr : loadElement s.heap array index = .ok r) :
      Effect size s ⟨.loadElement, operand⟩
        { s with counter := s.counter + 1, stack := r :: rest }
  | storeElement {name : Option String} {index v : Value} {address place : Nat} {rest : List Value}
      (hs : s.stack = index :: v :: rest)
      (hplace : slotOf s.heap name (s.store.get? name) index = .ok (address, place)) :
      Effect size s ⟨.storeElement, name⟩
        { s with
          counter := s.counter + 1, stack := rest, heap := s.heap.write address place v }

/-! ## Failure -/

/-- How many values an opcode takes from the stack one by one. -/
def pops : Opcode → Nat
  | .store | .unary _ | .jumpIfFalse | .print => 1
  | .binary _ | .loadElement | .storeElement => 2
  | _ => 0

/-- Why an instruction of a program of a size stops with a fault, and the state it leaves: operands
taken from the stack before the fault stay taken. -/
inductive Refusal [Limits] (size : Nat) (s : State) : Instruction → Fault → State → Prop where
  | constant {i : Instruction} {f : Fault} (hop : i.opcode ∈ constantOpcodes)
      (hv : constant i = .error f) : Refusal size s i f s
  | undefined {name : Option String} (h : s.store.get? name = none) :
      Refusal size s ⟨.load, name⟩ (.undefined name) s
  | underflow {i : Instruction} (hs : s.stack.length < pops i.opcode)
      (ht : i.opcode = .jumpIfFalse → ∃ t, jumpTarget size i = .ok t) :
      Refusal size s i .stackUnderflow { s with stack := [] }
  | unary {op : UnaryOp} {operand : Option String} {v : Value} {rest : List Value} {f : Fault}
      (hs : s.stack = v :: rest) (hr : applyUnary op v = .error f) :
      Refusal size s ⟨.unary op, operand⟩ f { s with stack := rest }
  | binary {op : BinaryOp} {operand : Option String} {a b : Value} {rest : List Value} {f : Fault}
      (hs : s.stack = b :: a :: rest) (hr : applyBinary s.heap op a b = .error f) :
      Refusal size s ⟨.binary op, operand⟩ f { s with stack := rest }
  | target {i : Instruction} {f : Fault} (hop : i.opcode.isJump = true)
      (ht : jumpTarget size i = .error f) : Refusal size s i f s
  | print {operand : Option String} {v : Value} {rest : List Value} {f : Fault}
      (hs : s.stack = v :: rest) (hline : shown s.heap v = .error f) :
      Refusal size s ⟨.print, operand⟩ f { s with stack := rest }
  | count {operand : Option String} {f : Fault}
      (hn : integerOperand ⟨.makeArray, operand⟩ = .error f) :
      Refusal size s ⟨.makeArray, operand⟩ f s
  | tooFew {operand : Option String} {n : Int} (hn : integerOperand ⟨.makeArray, operand⟩ = .ok n)
      (hlt : n < 0 ∨ (s.stack.length : Int) < n) :
      Refusal size s ⟨.makeArray, operand⟩ (.tooFewElements n s.stack.length) s
  | loadElement {operand : Option String} {array index : Value} {rest : List Value} {f : Fault}
      (hs : s.stack = index :: array :: rest) (hr : loadElement s.heap array index = .error f) :
      Refusal size s ⟨.loadElement, operand⟩ f { s with stack := rest }
  | storeElement {name : Option String} {index v : Value} {rest : List Value} {f : Fault}
      (hs : s.stack = index :: v :: rest)
      (hplace : slotOf s.heap name (s.store.get? name) index = .error f) :
      Refusal size s ⟨.storeElement, name⟩ f { s with stack := rest }
  | halt {operand : Option String} : Refusal size s ⟨.halt, operand⟩ (.notExecutable .halt) s

/-- The faults that lie in the values an operation is applied to: values of the wrong kind, a zero
divisor, a bad index, a value nested too deeply. -/
def Fault.isOfValues : Fault → Bool
  | .notAddable | .notNumbers _ | .divisionByZero | .notNumber _ | .loadFromNonArray
  | .storeToNonArray _ | .indexNotNumber | .indexNotFinite _ | .indexOutOfBounds _ _
  | .nestedTooDeeply => true
  | .stackUnderflow | .invalidNumber _ | .emptyChar | .undefined _ | .notInteger _ _
  | .targetOutside _ _ _ | .tooFewElements _ _ | .notExecutable _ => false

/-- The variable that a fault is about. -/
def Fault.name? : Fault → Option (Option String)
  | .undefined name | .storeToNonArray name => some name
  | _ => none

/-- An operation that has no fault but those that lie in values. -/
def Sound {α : Type} (r : Except Fault α) : Prop :=
  ∀ f, r = .error f → f.isOfValues = true

/-- An operation that has no fault but those that lie in values, and none that is about a
variable. -/
def Plain {α : Type} (r : Except Fault α) : Prop :=
  ∀ f, r = .error f → f.isOfValues = true ∧ f.name? = none

namespace Plain

theorem sound {α : Type} {r : Except Fault α} (h : Plain r) : Sound r :=
  fun f hf => (h f hf).1

theorem ok {α : Type} (a : α) : Plain (.ok a) :=
  fun _ h => nomatch h

theorem error {α : Type} {f : Fault} (hf : f.isOfValues = true ∧ f.name? = none) :
    Plain (.error f : Except Fault α) :=
  fun _ h => Except.error.inj h ▸ hf

theorem bind {α β : Type} {r : Except Fault α} {g : α → Except Fault β} (hr : Plain r)
    (hg : ∀ a, Plain (g a)) : Plain (r >>= g) := by
  cases r with
  | ok a => exact hg a
  | error f => exact .error (hr f rfl)

theorem shown [Limits] (h : Heap) (v : Value) : Plain (shown h v) := by
  unfold Machine.shown
  split
  · exact .ok _
  · exact .error ⟨rfl, rfl⟩

theorem compared [Limits] (h : Heap) (a b : Value) : Plain (compared h a b) := by
  unfold Machine.compared
  split
  · exact .ok _
  · exact .error ⟨rfl, rfl⟩

theorem applyUnary (op : UnaryOp) (v : Value) : Plain (applyUnary op v) := by
  unfold Machine.applyUnary
  split
  · exact .ok _
  · exact .error ⟨rfl, rfl⟩
  · exact .ok _

theorem onNumbers (op : BinaryOp) {g : Float → Float → Except Fault Value}
    (hg : ∀ x y, Plain (g x y)) (a b : Value) : Plain (onNumbers op g a b) := by
  unfold Machine.onNumbers
  split
  · exact hg _ _
  · exact .error ⟨rfl, rfl⟩

theorem add [Limits] (h : Heap) (a b : Value) : Plain (add h a b) := by
  unfold Machine.add
  split
  · exact .ok _
  · split
    · exact (shown h a).bind fun _ => (shown h b).bind fun _ => .ok _
    · exact .error ⟨rfl, rfl⟩

theorem divide (x y : Float) : Plain (divide x y) := by
  unfold Machine.divide
  split
  · exact .error ⟨rfl, rfl⟩
  · exact .ok _

theorem applyBinary [Limits] (h : Heap) (op : BinaryOp) (a b : Value) :
    Plain (applyBinary h op a b) := by
  cases op with
  | add => exact add h a b
  | div => exact onNumbers _ divide a b
  | eq => exact (compared h a b).bind fun _ => .ok _
  | ne => exact (compared h a b).bind fun _ => .ok _
  | and | or => exact .ok _
  | sub | mul | gt | ge | lt | le => exact onNumbers _ (fun _ _ => .ok _) a b

theorem slot (size : Nat) (index : Value) : Plain (slot size index) := by
  have hindex : Plain (toIndex index) := by
    unfold toIndex
    split
    · split
      · exact .ok _
      · exact .error ⟨rfl, rfl⟩
    · exact .error ⟨rfl, rfl⟩
  refine hindex.bind fun i => ?_
  split
  · exact .ok _
  · exact .error ⟨rfl, rfl⟩

theorem loadElement (h : Heap) (array index : Value) : Plain (loadElement h array index) := by
  unfold Machine.loadElement
  split
  · exact (slot _ index).bind fun _ => .ok _
  · exact .error ⟨rfl, rfl⟩

end Plain

/-- The place of an element is the one operation whose fault may be about a variable. -/
theorem Sound.slotOf (h : Heap) (name : Option String) (array : Option Value) (index : Value) :
    Sound (slotOf h name array index) := by
  unfold Machine.slotOf
  split
  · exact ((Plain.slot _ index).bind fun _ => .ok _).sound
  · intro f hf
    exact Except.error.inj hf ▸ rfl

section Operands

variable {size : Nat} {i : Instruction} {f : Fault}

theorem name?_of_constant (h : constant i = .error f) : f.name? = none := by
  rw [constant] at h
  split at h <;> try split at h
  all_goals cases h <;> rfl

theorem name?_of_integerOperand (h : integerOperand i = .error f) : f.name? = none := by
  rw [integerOperand] at h
  split at h
  all_goals cases h <;> rfl

theorem name?_of_jumpTarget (h : jumpTarget size i = .error f) : f.name? = none := by
  rw [jumpTarget] at h
  cases htarget : integerOperand i with
  | error f' =>
    rw [htarget] at h
    exact Except.error.inj h ▸ name?_of_integerOperand htarget
  | ok target =>
    rw [htarget] at h
    change (if (0 ≤ target && target ≤ size) = true then _ else _) = _ at h
    split at h
    · cases h
    · cases h
      rfl

end Operands

/-- Why an instruction fails: a variable that it looks up has no value, or some other fault. -/
inductive Failure (s : State) : Instruction → Fault → Prop where
  | undefined {name : Option String} (h : s.store.get? name = none) :
      Failure s ⟨.load, name⟩ (.undefined name)
  | other {i : Instruction} {f : Fault} (h : ∀ name, f ≠ .undefined name) : Failure s i f

theorem Failure.of_name? {s : State} {i : Instruction} {f : Fault} (h : f.name? = none) :
    Failure s i f :=
  .other fun name heq => by
    rw [heq] at h
    cases h

theorem Refusal.failure [Limits] {size : Nat} {s s' : State} {i : Instruction} {f : Fault}
    (h : Refusal size s i f s') : Failure s i f := by
  cases h with
  | constant _ hv => exact .of_name? (name?_of_constant hv)
  | undefined hnone => exact .undefined hnone
  | underflow => exact .of_name? rfl
  | unary _ hr => exact .of_name? (Plain.applyUnary _ _ f hr).2
  | binary _ hr => exact .of_name? (Plain.applyBinary _ _ _ _ f hr).2
  | target _ ht => exact .of_name? (name?_of_jumpTarget ht)
  | print _ hline => exact .of_name? (Plain.shown _ _ f hline).2
  | count hn => exact .of_name? (name?_of_integerOperand hn)
  | tooFew => exact .of_name? rfl
  | loadElement _ hr => exact .of_name? (Plain.loadElement _ _ _ f hr).2
  | storeElement _ hplace =>
    refine .other fun name heq => ?_
    have hvalues := Sound.slotOf _ _ _ _ f hplace
    rw [heq] at hvalues
    cases hvalues
  | halt => exact .of_name? rfl

/-! ## The two together -/

section Cases

variable [Limits] {size : Nat} {s : State} {i : Instruction}

/-- An opcode that takes more values than there are takes all of them and fails. -/
theorem run_execute_underflow (hs : s.stack.length < pops i.opcode)
    (ht : i.opcode = .jumpIfFalse → ∃ t, jumpTarget size i = .ok t) :
    (execute size i).run s = .error .stackUnderflow { s with stack := [] } := by
  obtain ⟨op, operand⟩ := i
  obtain ⟨k, stack, store, heap, output, written⟩ := s
  cases op with
  | store | unary | print =>
    obtain rfl : stack = [] := List.length_eq_zero_iff.1 (Nat.lt_one_iff.1 hs)
    rfl
  | jumpIfFalse =>
    obtain rfl : stack = [] := List.length_eq_zero_iff.1 (Nat.lt_one_iff.1 hs)
    obtain ⟨t, ht⟩ := ht rfl
    rw [run_execute_jumpIfFalse_eq, ht]
  | binary | loadElement | storeElement =>
    rcases stack with _ | ⟨v, _ | ⟨w, rest⟩⟩
    · rfl
    · rfl
    · simp [pops] at hs
  | _ => exact nomatch hs

/-- **An instruction has its effect, or is refused for a reason.** -/
theorem run_execute_cases (size : Nat) (s : State) (i : Instruction) :
    (∃ s', (execute size i).run s = .ok () s' ∧ Effect size s i s') ∨
      ∃ f s', (execute size i).run s = .error f s' ∧ Refusal size s i f s' := by
  have constants : i.opcode ∈ constantOpcodes →
      (∃ s', (execute size i).run s = .ok () s' ∧ Effect size s i s') ∨
        ∃ f s', (execute size i).run s = .error f s' ∧ Refusal size s i f s' := by
    intro hop
    rw [run_execute_constant hop]
    cases hv : constant i with
    | ok v => exact .inl ⟨_, rfl, .constant hop hv⟩
    | error f => exact .inr ⟨f, s, rfl, .constant hop hv⟩
  obtain ⟨op, operand⟩ := i
  obtain ⟨k, stack, store, heap, output, written⟩ := s
  cases op with
  | constNumber | constString | constChar | constBool | constNull =>
    exact constants (by simp [constantOpcodes])
  | load =>
    rw [run_execute_load]
    cases hv : store.get? operand with
    | some v => exact .inl ⟨_, rfl, .load hv⟩
    | none => exact .inr ⟨_, _, rfl, .undefined hv⟩
  | store =>
    cases stack with
    | nil => exact .inr ⟨_, _, rfl, .underflow Nat.one_pos Opcode.noConfusion⟩
    | cons v rest => exact .inl ⟨_, run_execute_store operand v, .store rfl⟩
  | unary op =>
    cases stack with
    | nil => exact .inr ⟨_, _, rfl, .underflow Nat.one_pos Opcode.noConfusion⟩
    | cons v rest =>
      rw [run_execute_unary]
      cases hr : applyUnary op v with
      | ok r => exact .inl ⟨_, rfl, .unary rfl hr⟩
      | error f => exact .inr ⟨f, _, rfl, .unary rfl hr⟩
  | binary op =>
    rcases stack with _ | ⟨b, _ | ⟨a, rest⟩⟩
    · exact .inr ⟨_, _, rfl, .underflow Nat.two_pos Opcode.noConfusion⟩
    · exact .inr ⟨_, _, rfl, .underflow Nat.one_lt_two Opcode.noConfusion⟩
    · rw [run_execute_binary]
      cases hr : applyBinary heap op a b with
      | ok r => exact .inl ⟨_, rfl, .binary rfl hr⟩
      | error f => exact .inr ⟨f, _, rfl, .binary rfl hr⟩
  | jump =>
    rw [run_execute_jump_eq]
    cases ht : jumpTarget size ⟨.jump, operand⟩ with
    | ok t => exact .inl ⟨_, rfl, .jump ht⟩
    | error f => exact .inr ⟨f, _, rfl, .target rfl ht⟩
  | jumpIfFalse =>
    rw [run_execute_jumpIfFalse_eq]
    cases ht : jumpTarget size ⟨.jumpIfFalse, operand⟩ with
    | error f => exact .inr ⟨f, _, rfl, .target rfl ht⟩
    | ok t =>
      cases stack with
      | nil => exact .inr ⟨_, _, rfl, .underflow Nat.one_pos fun _ => ⟨t, ht⟩⟩
      | cons v rest => exact .inl ⟨_, rfl, .jumpIfFalse rfl ht⟩
  | print =>
    cases stack with
    | nil => exact .inr ⟨_, _, rfl, .underflow Nat.one_pos Opcode.noConfusion⟩
    | cons v rest =>
      rw [run_execute_print]
      cases hline : shown heap v with
      | ok line => exact .inl ⟨_, rfl, .print rfl hline⟩
      | error f => exact .inr ⟨f, _, rfl, .print rfl hline⟩
  | makeArray =>
    rw [run_execute_makeArray_eq]
    cases hn : integerOperand ⟨.makeArray, operand⟩ with
    | error f => exact .inr ⟨f, _, rfl, .count hn⟩
    | ok count =>
      dsimp only
      split
      · rename_i hcount
        exact .inr ⟨_, _, rfl, .tooFew hn (by simpa using hcount)⟩
      · rename_i hcount
        simp only [Bool.or_eq_true, decide_eq_true_eq, not_or, Int.not_lt] at hcount
        obtain ⟨n, rfl⟩ := Int.eq_ofNat_of_zero_le hcount.1
        exact .inl ⟨_, rfl, .makeArray hn (Int.ofNat_le.1 hcount.2)⟩
  | loadElement =>
    rcases stack with _ | ⟨index, _ | ⟨array, rest⟩⟩
    · exact .inr ⟨_, _, rfl, .underflow Nat.two_pos Opcode.noConfusion⟩
    · exact .inr ⟨_, _, rfl, .underflow Nat.one_lt_two Opcode.noConfusion⟩
    · rw [run_execute_loadElement]
      cases hr : loadElement heap array index with
      | ok r => exact .inl ⟨_, rfl, .loadElement rfl hr⟩
      | error f => exact .inr ⟨f, _, rfl, .loadElement rfl hr⟩
  | storeElement =>
    rcases stack with _ | ⟨index, _ | ⟨v, rest⟩⟩
    · exact .inr ⟨_, _, rfl, .underflow Nat.two_pos Opcode.noConfusion⟩
    · exact .inr ⟨_, _, rfl, .underflow Nat.one_lt_two Opcode.noConfusion⟩
    · rw [run_execute_storeElement]
      cases hplace : slotOf heap operand (store.get? operand) index with
      | ok place => exact .inl ⟨_, rfl, .storeElement rfl hplace⟩
      | error f => exact .inr ⟨f, _, rfl, .storeElement rfl hplace⟩
  | halt => exact .inr ⟨_, _, rfl, .halt⟩

/-- An instruction that succeeds has its effect. -/
theorem effect_of_run {s' : State} (h : (execute size i).run s = .ok () s') :
    Effect size s i s' := by
  rcases run_execute_cases size s i with ⟨s'', hrun, heffect⟩ | ⟨f, s'', hrun, -⟩
  · rw [h, EStateM.Result.ok.injEq] at hrun
    exact hrun.2 ▸ heffect
  · rw [h] at hrun
    exact nomatch hrun

/-- An instruction that stops is refused. -/
theorem refusal_of_run {f : Fault} {s' : State} (h : (execute size i).run s = .error f s') :
    Refusal size s i f s' := by
  rcases run_execute_cases size s i with ⟨s'', hrun, -⟩ | ⟨f', s'', hrun, hrefusal⟩
  · rw [h] at hrun
    exact nomatch hrun
  · rw [h, EStateM.Result.error.injEq] at hrun
    exact hrun.1 ▸ hrun.2 ▸ hrefusal

/-- **Only looking up a variable fails for want of one**, and then there is none. -/
theorem undefined_of_run {s' : State} {name : Option String}
    (h : (execute size i).run s = .error (.undefined name) s') :
    i = ⟨.load, name⟩ ∧ s.store.get? name = none := by
  cases (refusal_of_run h).failure with
  | undefined hnone => exact ⟨rfl, hnone⟩
  | other hne => exact absurd rfl (hne name)

/-- An effect is what executing the instruction does. -/
theorem Effect.run {s' : State} (h : Effect size s i s') : (execute size i).run s = .ok () s' := by
  obtain ⟨k, stack, store, heap, output, written⟩ := s
  cases h with
  | constant hop hv => rw [run_execute_constant hop, hv]
  | load hv => rw [run_execute_load, hv]
  | store hs =>
    subst hs
    exact run_execute_store _ _
  | unary hs hr =>
    subst hs
    rw [run_execute_unary, hr]
  | binary hs hr =>
    subst hs
    rw [run_execute_binary, hr]
  | jump ht => rw [run_execute_jump_eq, ht]
  | jumpIfFalse hs ht =>
    subst hs
    rw [run_execute_jumpIfFalse_eq, ht]
  | print hs hline =>
    subst hs
    rw [run_execute_print, hline]
  | makeArray hn hle => exact run_execute_makeArray_of_count hn hle
  | loadElement hs hr =>
    subst hs
    rw [run_execute_loadElement, hr]
  | storeElement hs hplace =>
    subst hs
    rw [run_execute_storeElement, hplace]

/-- A refusal is what executing the instruction comes to. -/
theorem Refusal.run {f : Fault} {s' : State} (h : Refusal size s i f s') :
    (execute size i).run s = .error f s' := by
  obtain ⟨k, stack, store, heap, output, written⟩ := s
  cases h with
  | constant hop hv => rw [run_execute_constant hop, hv]
  | undefined hnone => rw [run_execute_load, hnone]
  | underflow hs ht => exact run_execute_underflow hs ht
  | unary hs hr =>
    subst hs
    rw [run_execute_unary, hr]
  | binary hs hr =>
    subst hs
    rw [run_execute_binary, hr]
  | target hop ht =>
    obtain ⟨op, operand⟩ := i
    cases op with
    | jump => rw [run_execute_jump_eq, ht]
    | jumpIfFalse => rw [run_execute_jumpIfFalse_eq, ht]
    | _ => exact nomatch hop
  | print hs hline =>
    subst hs
    rw [run_execute_print, hline]
  | count hn => rw [run_execute_makeArray_eq, hn]
  | tooFew hn hlt =>
    rw [run_execute_makeArray_eq, hn]
    exact if_pos (by simpa using hlt)
  | loadElement hs hr =>
    subst hs
    rw [run_execute_loadElement, hr]
  | storeElement hs hplace =>
    subst hs
    rw [run_execute_storeElement, hplace]
  | halt => rfl

end Cases

end Scriptlet.Machine
