import Scriptlet.Proofs.Composition
import Scriptlet.Proofs.Machine.Effect

/-!
# Which variables a checked program can miss

The check of declarations walks over the tree once, with one scope for everything; a run takes
branches, skips bodies and repeats them.  So a name that passes the check may still have no value
when a run needs it.  This file says when: only if its one declaration is conditional.  A
declaration that is not conditional is passed by every run before anything needs the name.

## What is here

* `Instruction.Needs name` — the instruction reads the variable, or writes to the array it holds.
* `Origin.exists_of_needs` — the checker has seen every variable that code needs.
* `Settles x k code` — **the shape of code that settles a variable**: a first part that does without
  it and that no jump leaves but to its end, and then the instruction that gives it a value.
* `Stmt.settles` — the code of a statement with an unconditional declaration has that shape.
* `defined_of_steps` — in code of that shape a run finds the variable wherever it needs it.
* `conditional_of_undefined` — the result for checked programs.

The checker sees the third clause of a `for` loop before the body, and the run comes to it after the
body; this does no harm, since the third clause declares nothing and the body is conditional.
-/

set_option autoImplicit false
namespace Scriptlet

open Machine

/-! ## What code needs, the checker has seen -/

/-- An instruction that needs a variable: it reads it, or writes to the array that it holds. -/
def Instruction.Needs (i : Instruction) (name : Option String) : Prop :=
  (i.opcode = .load ∨ i.opcode = .storeElement) ∧ i.operand = name

theorem Instruction.Needs.takesName {i : Instruction} {name : Option String} (h : i.Needs name) :
    i.opcode.takesName = true := by
  rcases h.1 with hop | hop <;>
  · rw [hop]
    rfl

/-- What an instruction needs is the name of an event. -/
theorem Origin.exists_of_needs {es : List Event} {vs : List Literal} {i : Instruction}
    {name : Option String} (h : Origin es vs i) (hneeds : i.Needs name) :
    ∃ e ∈ es, name = some e.name := by
  obtain ⟨e, he, hname⟩ := h.exists_of_takesName hneeds.takesName
  exact ⟨e, he, hneeds.2.symm.trans hname⟩

/-- Code that does without a variable. -/
def Avoids (x : String) (code : List Instruction) : Prop :=
  ∀ i ∈ code, ¬i.Needs (some x)

theorem MadeOf.avoids {es : List Event} {vs : List Literal} {code : List Instruction} {x : String}
    (h : MadeOf es vs code) (hx : eventsOf x es = []) : Avoids x code := by
  intro i hi hneeds
  obtain ⟨e, he, hname⟩ := (h i hi).exists_of_needs hneeds
  have hmem : e ∈ eventsOf x es := mem_eventsOf.2 ⟨he, (Option.some.inj hname).symm⟩
  rw [hx] at hmem
  exact List.not_mem_nil hmem

/-! ## Code that settles a variable -/

/-- **The code gives the variable a value before anything in it needs one.**  Its first part does
without the variable and has no jump that leads past its end, where the variable gets its value.
The index of the first instruction is `k`. -/
def Settles (x : String) (k : Nat) (code : List Instruction) : Prop :=
  ∃ front back, code = front ++ ⟨.store, some x⟩ :: back ∧ Avoids x front ∧
    TargetsIn k (k + front.length) front

namespace Settles

variable {x : String} {k : Nat} {xs ys : List Instruction}

theorem left (h : Settles x k xs) : Settles x k (xs ++ ys) := by
  obtain ⟨front, back, rfl, havoids, htargets⟩ := h
  exact ⟨front, back ++ ys, by rw [List.append_assoc, List.cons_append], havoids, htargets⟩

theorem right (havoids : Avoids x xs) (htargets : TargetsIn k (k + xs.length) xs)
    (h : Settles x (k + xs.length) ys) : Settles x k (xs ++ ys) := by
  obtain ⟨front, back, rfl, havoids', htargets'⟩ := h
  refine ⟨xs ++ front, back, by rw [List.append_assoc],
    fun i hi => (List.mem_append.1 hi).elim (havoids i) (havoids' i), ?_⟩
  rw [List.length_append]
  exact (htargets.mono (Nat.le_refl k) (by omega)).append (htargets'.mono (by omega) (by omega))

theorem binding {b : Binding} (h : Disciplined b.name b.declarationEvents) :
    Settles b.name k b.code := by
  have hvalue : eventsOf b.name b.value.events = [] := h.eventsOf_left List.mem_cons_self
  exact ⟨b.value.code, [], rfl, b.value.madeOf_code.avoids hvalue, .straight b.value.straight_code⟩

end Settles

theorem ForInit.settles {x : String} {i : ForInit} (hd : ⟨x, false⟩ ∈ i.declarations false)
    (h : Disciplined x i.events) (k : Nat) : Settles x k i.code := by
  cases i with
  | declare b =>
    obtain ⟨rfl, -⟩ := (Declaration.mk.injEq _ _ _ _).mp (List.mem_singleton.1 hd)
    exact .binding h
  | assign b => exact absurd hd List.not_mem_nil

mutual

/-- A declaration in a branch or a body is conditional. -/
theorem Stmt.conditional_of_mem {d : Declaration} :
    ∀ s : Stmt, d ∈ s.declarations true → d.conditional = true
  | .declare _, h => List.mem_singleton.1 h ▸ rfl
  | .assign _, h | .assignElement _ _ _ _, h | .print _ _, h => absurd h List.not_mem_nil
  | .block body _, h => Stmt.conditional_of_memAll body h
  | .ifThen _ body _ _, h => Stmt.conditional_of_memAll body h
  | .ifElse _ body _ otherwise _ _, h =>
    (List.mem_append.1 h).elim (Stmt.conditional_of_memAll body)
      (Stmt.conditional_of_memAll otherwise)
  | .whileLoop _ body _ _, h => Stmt.conditional_of_memAll body h
  | .forLoop clauses body _ _, h => by
    rcases List.mem_append.1 h with h | h
    · cases hinit : clauses.init with
      | none =>
        rw [hinit] at h
        exact absurd h List.not_mem_nil
      | some i =>
        rw [hinit] at h
        cases i with
        | declare _ => exact List.mem_singleton.1 h ▸ rfl
        | assign _ => exact absurd h List.not_mem_nil
    · exact Stmt.conditional_of_memAll body h

theorem Stmt.conditional_of_memAll {d : Declaration} :
    ∀ ss : List Stmt, d ∈ Stmt.declarationsAll true ss → d.conditional = true
  | [], h => absurd h List.not_mem_nil
  | s :: ss, h =>
    (List.mem_append.1 h).elim (Stmt.conditional_of_mem s) (Stmt.conditional_of_memAll ss)

end

mutual

/-- **A statement with an unconditional declaration settles the variable.** -/
theorem Stmt.settles {x : String} : ∀ (s : Stmt) (k : Nat), ⟨x, false⟩ ∈ s.declarations false →
    Disciplined x s.events → Settles x k (s.layout k)
  | .declare b, k, hd, h => by
    obtain ⟨rfl, -⟩ := (Declaration.mk.injEq _ _ _ _).mp (List.mem_singleton.1 hd)
    exact .binding h
  | .assign _, _, hd, _ | .assignElement _ _ _ _, _, hd, _ | .print _ _, _, hd, _ =>
    absurd hd List.not_mem_nil
  | .block body _, k, hd, h => Stmt.settlesAll body k hd h
  | .ifThen _ body _ _, _, hd, _ => nomatch Stmt.conditional_of_memAll body hd
  | .ifElse _ body _ otherwise _ _, _, hd, _ => by
    rcases List.mem_append.1 hd with hd | hd
    · exact nomatch Stmt.conditional_of_memAll body hd
    · exact nomatch Stmt.conditional_of_memAll otherwise hd
  | .whileLoop _ body _ _, _, hd, _ => nomatch Stmt.conditional_of_memAll body hd
  | .forLoop clauses body _ _, k, hd, h => by
    rcases List.mem_append.1 hd with hd | hd
    · rw [Stmt.events, ForClauses.events] at h
      rw [Stmt.layout]
      cases hinit : clauses.init with
      | none =>
        rw [hinit] at hd
        exact absurd hd List.not_mem_nil
      | some i =>
        rw [hinit] at hd h
        exact (ForInit.settles hd h.left.left.left k).left
    · exact nomatch Stmt.conditional_of_memAll body hd

theorem Stmt.settlesAll {x : String} : ∀ (ss : List Stmt) (k : Nat),
    ⟨x, false⟩ ∈ Stmt.declarationsAll false ss → Disciplined x (Stmt.eventsAll ss) →
    Settles x k (Stmt.layoutAll ss k)
  | [], _, hd, _ => absurd hd List.not_mem_nil
  | s :: ss, k, hd, h => by
    rw [Stmt.eventsAll] at h
    rw [Stmt.layoutAll]
    rcases List.mem_append.1 hd with hd | hd
    · exact (s.settles k hd h.left).left
    · -- the declaration is further on, so nothing here is about the name
      obtain ⟨line, hmem⟩ := Stmt.exists_declare_mem hd
      exact .right ((s.madeOf_layout k).avoids (h.eventsOf_left hmem)) (s.targetsIn_layout k)
        (Stmt.settlesAll ss _ hd (h.right hmem))

end

/-! ## Runs -/

section Runs

variable {size : Nat} {s s' : State} {i : Instruction}

/-- A variable that has a value keeps having one. -/
theorem Machine.Effect.store_isSome [Limits] (h : Effect size s i s') {name : Option String}
    (hs : (s.store.get? name).isSome) : (s'.store.get? name).isSome := by
  cases h with
  | @store name' v rest _ =>
    by_cases heq : name = name'
    · rw [heq, Store.get?_put_self]
      rfl
    · rw [Store.get?_put_of_ne _ _ heq]
      exact hs
  | _ => exact hs

/-- The counter moves on by one, or to the target of a jump. -/
theorem Machine.Effect.counter [Limits] (h : Effect size s i s') :
    s'.counter = s.counter + 1 ∨
      ∃ t : Nat, i.opcode.isJump = true ∧ jumpTarget size i = .ok t ∧ s'.counter = t := by
  cases h with
  | @jump operand t ht => exact .inr ⟨t, rfl, ht, rfl⟩
  | @jumpIfFalse operand t v rest _ ht =>
    cases hv : v.truthy with
    | true => exact .inl rfl
    | false => exact .inr ⟨t, rfl, ht, rfl⟩
  | _ => exact .inl rfl

variable {x : String} {front back : List Instruction}

/-- The invariant: the variable has a value, or the run is not past the place where it gets one. -/
def Settled (x : String) (p : Nat) (s : State) : Prop :=
  (s.store.get? (some x)).isSome ∨ ∃ k ≤ p, s.counter = (k : Nat)

/-- Where the run may be as long as the variable has no value. -/
theorem mem_front_or_eq_store {k : Nat} (hk : k ≤ front.length)
    (hi : (front ++ (⟨.store, some x⟩ : Instruction) :: back)[k]? = some i) :
    (k < front.length ∧ i ∈ front) ∨ (k = front.length ∧ i = ⟨.store, some x⟩) := by
  rcases Nat.lt_or_ge k front.length with hlt | hge
  · rw [List.getElem?_append_left hlt] at hi
    exact .inl ⟨hlt, List.mem_of_getElem? hi⟩
  · obtain rfl : k = front.length := Nat.le_antisymm hk hge
    rw [List.getElem?_append_right hge, Nat.sub_self, List.getElem?_cons_zero] at hi
    exact .inr ⟨rfl, (Option.some.inj hi).symm⟩

theorem Settled.step [Limits] {code : Array Instruction}
    (hcode : code.toList = front ++ ⟨.store, some x⟩ :: back)
    (htargets : TargetsIn 0 front.length front) (h : Settled x front.length s)
    (hstep : Step code s s') : Settled x front.length s' := by
  obtain ⟨i, hfetch, -, hrun⟩ := hstep
  have heffect := effect_of_run hrun
  rcases h with h | ⟨k, hk, hcounter⟩
  · exact .inl (heffect.store_isSome h)
  rw [hcounter] at hfetch
  have hi := getElem?_of_fetch hfetch
  rw [← Array.getElem?_toList, hcode] at hi
  rcases mem_front_or_eq_store hk hi with ⟨hlt, hmem⟩ | ⟨-, rfl⟩
  · right
    rcases heffect.counter with hnext | ⟨t, hjump, htarget, hnext⟩
    · exact ⟨k + 1, hlt, by rw [hnext, hcounter]; rfl⟩
    · obtain ⟨t', -, hle, hoperand⟩ := htargets i hmem hjump
      obtain ⟨op, operand⟩ := i
      obtain rfl : operand = some (toString t') := hoperand
      obtain rfl := eq_of_jumpTarget htarget
      exact ⟨t, hle, hnext⟩
  · left
    cases heffect with
    | constant hop => simp [constantOpcodes] at hop
    | store => simp [Store.get?_put_self]

theorem Settled.steps [Limits] {code : Array Instruction}
    (hcode : code.toList = front ++ ⟨.store, some x⟩ :: back)
    (htargets : TargetsIn 0 front.length front) {n : Nat} (h : Settled x front.length s)
    (hsteps : Steps code n s s') : Settled x front.length s' := by
  induction hsteps with
  | refl => exact h
  | head first _ ih => exact ih (h.step hcode htargets first)

/-- **A run of code that settles a variable finds it wherever it needs it.** -/
theorem defined_of_steps [Limits] {code : Array Instruction} (hcode : Settles x 0 code.toList)
    {n : Nat} (hsteps : Steps code n {} s) (hfetch : fetch code s.counter = .instruction i)
    (hneeds : i.Needs (some x)) : (s.store.get? (some x)).isSome := by
  obtain ⟨front, back, hcode, havoids, htargets⟩ := hcode
  rw [Nat.zero_add] at htargets
  have hstart : Settled x front.length {} := .inr ⟨0, Nat.zero_le _, rfl⟩
  rcases hstart.steps hcode htargets hsteps with h | ⟨k, hk, hcounter⟩
  · exact h
  rw [hcounter] at hfetch
  have hi := getElem?_of_fetch hfetch
  rw [← Array.getElem?_toList, hcode] at hi
  rcases mem_front_or_eq_store hk hi with ⟨-, hmem⟩ | ⟨-, rfl⟩
  · exact absurd hneeds (havoids i hmem)
  · rcases hneeds.1 with h | h <;> exact nomatch h

end Runs

/-! ## Checked programs -/

section Checked

variable {program : List Stmt}

theorem settles_assemble (h : (Scope.check {} program).violations = #[]) {x : String}
    (hx : ⟨x, false⟩ ∈ Stmt.declarationsAll false program) :
    Settles x 0 (assemble program).code.toList := by
  rw [assemble_code, List.toList_toArray, programLayout]
  exact (Stmt.settlesAll program 0 hx (disciplined_of_check h x)).left

/-- What an instruction at the counter needs has one declaration, and if that is not conditional,
the variable has a value. -/
theorem declaration_of_needs [Limits] (h : (Scope.check {} program).violations = #[]) {n : Nat}
    {s : State} (hsteps : Steps (assemble program).code n {} s) {i : Instruction}
    (hfetch : fetch (assemble program).code s.counter = .instruction i) {name : Option String}
    (hneeds : i.Needs name) : ∃ x conditional, name = some x ∧
      (Stmt.declarationsAll false program).filter (·.name = x) = [⟨x, conditional⟩] ∧
        (conditional = false → (s.store.get? name).isSome) := by
  have hi : i ∈ (assemble program).code.toList := Array.mem_toList_iff.2 (mem_of_fetch hfetch)
  obtain ⟨e, he, rfl⟩ := (madeOf_assemble program i hi).exists_of_needs hneeds
  have hne : eventsOf e.name (Stmt.eventsAll program) ≠ [] :=
    List.ne_nil_of_mem (mem_eventsOf.2 ⟨he, rfl⟩)
  obtain ⟨conditional, hone⟩ := exists_declaration h hne
  refine ⟨e.name, conditional, rfl, hone, ?_⟩
  rintro rfl
  have hmem : ⟨e.name, false⟩ ∈ Stmt.declarationsAll false program :=
    (List.mem_filter.1 (hone ▸ List.mem_singleton_self _)).1
  exact defined_of_steps (settles_assemble h hmem) hsteps hfetch hneeds

/-- The instruction at the counter fails for want of a variable, or it is about to write to the
array in a variable that has no value. -/
def Misses [Limits] (code : Array Instruction) (s : State) (name : Option String) : Prop :=
  (∃ s', Fails code s (.undefined name) s') ∨
    fetch code s.counter = .instruction ⟨.storeElement, name⟩ ∧ s.store.get? name = none

theorem Misses.exists_needs [Limits] {code : Array Instruction} {s : State} {name : Option String}
    (h : Misses code s name) :
    ∃ i, fetch code s.counter = .instruction i ∧ i.Needs name ∧ s.store.get? name = none := by
  rcases h with ⟨s', i, hfetch, -, hrun⟩ | ⟨hfetch, hnone⟩
  · obtain ⟨rfl, hnone⟩ := undefined_of_run hrun
    exact ⟨_, hfetch, ⟨.inl rfl, rfl⟩, hnone⟩
  · exact ⟨_, hfetch, ⟨.inr rfl, rfl⟩, hnone⟩

theorem conditional_of_misses [Limits] (h : (Scope.check {} program).violations = #[]) {n : Nat}
    {s : State} {name : Option String} (hsteps : Steps (assemble program).code n {} s)
    (hmisses : Misses (assemble program).code s name) :
    ∃ x, name = some x ∧
      (Stmt.declarationsAll false program).filter (·.name = x) = [⟨x, true⟩] := by
  obtain ⟨i, hfetch, hneeds, hnone⟩ := hmisses.exists_needs
  obtain ⟨x, conditional, hname, hone, hsome⟩ := declaration_of_needs h hsteps hfetch hneeds
  cases conditional with
  | true => exact ⟨x, hname, hone⟩
  | false =>
    have := hsome rfl
    rw [hnone] at this
    exact nomatch this

theorem mem_declarations {x : String} {c : Bool}
    (h : (Stmt.declarationsAll false program).filter (·.name = x) = [⟨x, c⟩]) :
    ⟨x, c⟩ ∈ Stmt.declarationsAll false program :=
  (List.mem_filter.1 (h ▸ List.mem_singleton_self _)).1

end Checked

/-- **A checked program misses only variables that are declared conditionally.**  In every state
that a run of it reaches, if the instruction fails for want of a variable, or is about to write to
the array in a variable that has no value, then the program declares that variable exactly once, in
a branch or a body.  So if no declaration is conditional, then each variable has a value wherever an
instruction needs it, and no run of any length fails for want of one. -/
theorem conditional_of_undefined [Limits] (program : List Stmt)
    (h : (Scope.check {} program).violations = #[]) :
    (∀ n s name, Steps (assemble program).code n {} s → Misses (assemble program).code s name →
      ∃ x, name = some x ∧
        (Stmt.declarationsAll false program).filter (·.name = x) = [⟨x, true⟩]) ∧
    ((∀ d ∈ Stmt.declarationsAll false program, d.conditional = false) →
      (∀ n s i name, Steps (assemble program).code n {} s →
        fetch (assemble program).code s.counter = .instruction i → i.Needs name →
          (s.store.get? name).isSome) ∧
      ∀ n name index, (run (assemble program).code n {}).1 ≠ .failed ⟨.undefined name, index⟩) := by
  refine ⟨fun n s name => conditional_of_misses h, fun hall => ⟨?_, ?_⟩⟩
  · intro n s i name hsteps hfetch hneeds
    obtain ⟨x, conditional, rfl, hone, hsome⟩ := declaration_of_needs h hsteps hfetch hneeds
    exact hsome (hall _ (mem_declarations hone))
  · intro n name index hrun
    obtain ⟨m, s, s', hsteps, hfails⟩ := exists_fails_of_run hrun
    obtain ⟨x, -, hone⟩ := conditional_of_misses h hsteps (.inl ⟨s', hfails⟩)
    exact nomatch hall _ (mem_declarations hone)

/-- A declaration in a branch that is not taken passes the check, and the use after the branch
fails; a declaration in the first clause of a loop serves the loop and what follows it, for ever. -/
theorem conditional_of_undefined_branch :
    let _ : Limits := ⟨20, 20⟩
    let skipped : List Stmt := [
      .ifThen (.literal .null 1) [.declare ⟨"x", .literal .null 2, 2⟩] 1 1,
      .print (.variable "x" 4) 4]
    let endless : List Stmt := [.forLoop ⟨some (.declare ⟨"a", .array [] 1, 1⟩), none, none⟩
      [.print (.variable "a" 2) 2] 1 1, .assignElement "a" (.variable "a" 4) (.variable "a" 4) 4]
    (Scope.check {} skipped).violations = #[] ∧
      (∃ s, Steps (assemble skipped).code 2 {} s ∧ Misses (assemble skipped).code s (some "x")) ∧
      (Stmt.declarationsAll false skipped).filter (·.name = "x") = [⟨"x", true⟩] ∧
    (Scope.check {} endless).violations = #[] ∧
      ∀ n name index, (run (assemble endless).code n {}).1 ≠ .failed ⟨.undefined name, index⟩ := by
  intro limits skipped endless
  have hskipped : (Scope.check {} skipped).violations = #[] := by decide
  have hendless : (Scope.check {} endless).violations = #[] := by decide
  have hreached : ∃ s, Steps (assemble skipped).code 2 {} s ∧
      Misses (assemble skipped).code s (some "x") := by
    rw [assemble_code]
    have hnull : Step (programLayout skipped).toArray {} { counter := 1, stack := [.null] } :=
      ⟨_, rfl, by decide, run_execute_literal .null⟩
    have hjump : Step (programLayout skipped).toArray { counter := 1, stack := [.null] }
        { counter := 4 } :=
      ⟨jumpTo .jumpIfFalse 4, rfl, by decide,
        run_execute_jumpIfFalse (le_digitLimit (by decide)) (by decide) .null⟩
    exact ⟨_, .head hnull hjump.steps,
      .inl ⟨_, ⟨.load, some "x"⟩, rfl, by decide, run_execute_load _⟩⟩
  obtain ⟨s, hsteps, hmisses⟩ := hreached
  obtain ⟨x, hx, hone⟩ := (conditional_of_undefined skipped hskipped).1 2 s _ hsteps hmisses
  obtain rfl := Option.some.inj hx
  exact ⟨hskipped, ⟨s, hsteps, hmisses⟩, hone, hendless,
    ((conditional_of_undefined endless hendless).2 (by decide)).2⟩

end Scriptlet
