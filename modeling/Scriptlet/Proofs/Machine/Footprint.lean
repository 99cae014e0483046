import Scriptlet.Proofs.Machine.Effect

/-!
# The footprint of an instruction

How much of a state one instruction depends on and changes.  An instruction that stops has taken
some operands from the stack, and has done nothing else: it changes the variables, the heap, the
output and the counter only when nothing can go wrong any more.  An instruction that succeeds looks
at the top of the stack alone, so that it does the same with anything else beneath.

* `Refusal.left` — what is left of a state after a fault.
* `Effect.above` — an effect with more values beneath the ones on the stack.
* `execute_footprint` — **the footprint of an instruction**.
-/

set_option autoImplicit false
namespace Scriptlet.Machine

section

variable [Limits] {size : Nat} {s s' : State} {i : Instruction} {f : Fault}

/-! ## Failure -/

/-- **A refused instruction takes operands from the stack and does nothing else.**  It takes none if
the target of a jump is bad, for the target is looked at first. -/
theorem Refusal.left (h : Refusal size s i f s') : ∃ k ≤ pops i.opcode,
    s' = { s with stack := s.stack.drop k } ∧
      (i.opcode.isJump = true → (∃ g, jumpTarget size i = .error g) → k = 0) := by
  -- in each rule the operands taken are the ones that its hypothesis on the stack names
  cases h with
  | constant | undefined | target | count | tooFew | halt =>
    exact ⟨0, Nat.zero_le _, rfl, fun _ _ => rfl⟩
  | underflow hs ht =>
    refine ⟨pops i.opcode, le_rfl, ?_, ?_⟩
    · rw [List.drop_eq_nil_of_le (Nat.le_of_lt hs)]
    · rintro hjump ⟨g, hg⟩
      obtain ⟨op, operand⟩ := i
      cases op with
      | jump => exact absurd hs (Nat.not_lt_zero _)
      | jumpIfFalse =>
        obtain ⟨t, ht⟩ := ht rfl
        exact nomatch ht.symm.trans hg
      | _ => cases hjump
  | unary hs | print hs => exact ⟨1, le_rfl, by rw [hs]; rfl, nofun⟩
  | binary hs | loadElement hs | storeElement hs => exact ⟨2, le_rfl, by rw [hs]; rfl, nofun⟩

/-! ## Success -/

/-- The state with more values beneath the ones on its stack. -/
def State.above (s : State) (beneath : List Value) : State :=
  { s with stack := s.stack ++ beneath }

/-- **An instruction that succeeds does the same whatever is beneath.** -/
theorem Effect.above (h : Effect size s i s') (beneath : List Value) :
    Effect size (s.above beneath) i (s'.above beneath) := by
  cases h with
  | constant hop hv => exact .constant hop hv
  | load hv => exact .load hv
  | store hs => exact .store (congrArg (· ++ beneath) hs)
  | unary hs hr => exact .unary (congrArg (· ++ beneath) hs) hr
  | binary hs hr => exact .binary (congrArg (· ++ beneath) hs) hr
  | jump ht => exact .jump ht
  | jumpIfFalse hs ht => exact .jumpIfFalse (congrArg (· ++ beneath) hs) ht
  | print hs hline => exact .print (congrArg (· ++ beneath) hs) hline
  | @makeArray operand n hn hle =>
    have hdrop : (s.stack ++ beneath).drop n = s.stack.drop n ++ beneath :=
      List.drop_append_of_le_length hle
    have htake : (s.stack ++ beneath).take n = s.stack.take n := List.take_append_of_le_length hle
    have heffect : Effect size (s.above beneath) ⟨.makeArray, operand⟩ _ :=
      .makeArray hn (hle.trans (by simp [State.above]))
    simp only [State.above, hdrop, htake] at heffect
    exact heffect
  | loadElement hs hr => exact .loadElement (congrArg (· ++ beneath) hs) hr
  | storeElement hs hplace => exact .storeElement (congrArg (· ++ beneath) hs) hplace

end

/-! ## Both -/

theorem pops_le_two (op : Opcode) : pops op ≤ 2 := by
  cases op <;> simp [pops]

/-- **The footprint of an instruction.**  If it stops with a fault, it has taken at most two values
from the top of the stack and nothing else is changed; it has taken none if it makes an array, or if
it is a jump with a bad target; and the error of a run that stops there is about the counter as it
was.  If it succeeds, it succeeds with any further values beneath the ones on the stack, and does
the same. -/
theorem execute_footprint [Limits] (size : Nat) (i : Instruction) (s : State) :
    (∀ f s', (execute size i).run s = .error f s' →
      (∃ k ≤ 2, s' = { s with stack := s.stack.drop k } ∧
        (i.opcode = .makeArray ∨ i.opcode.isJump = true ∧ (∃ g, jumpTarget size i = .error g) →
          k = 0)) ∧
      ∀ (program : Array Instruction) (n : Nat), program.size = size →
        fetch program s.counter = .instruction i → i.opcode ≠ .halt →
        run program (n + 1) s = (.failed ⟨f, s.counter⟩, s')) ∧
    ∀ s' beneath, (execute size i).run s = .ok () s' →
      (execute size i).run { s with stack := s.stack ++ beneath } =
        .ok () { s' with stack := s'.stack ++ beneath } := by
  refine ⟨fun f s' herror => ?_, fun s' beneath hok => ((effect_of_run hok).above beneath).run⟩
  obtain ⟨k, hk, rfl, htarget⟩ := (refusal_of_run herror).left
  refine ⟨⟨k, hk.trans (pops_le_two _), rfl, ?_⟩, ?_⟩
  · rintro (hop | ⟨hjump, hbad⟩)
    · rw [hop] at hk
      exact Nat.le_zero.1 hk
    · exact htarget hjump hbad
  · rintro program n rfl hfetch hop
    exact run_of_fails ⟨i, hfetch, hop, herror⟩

/-- Writing to an element of a variable that has no value takes the index and the value; giving it a
value takes one, whatever is beneath. -/
theorem execute_footprint_store :
    let _ : Limits := ⟨20, 20⟩
    let s : State := { counter := 1, stack := [.null, .bool true, .string "c"] }
    let program : Array Instruction := #[⟨.halt, none⟩, ⟨.storeElement, some "x"⟩]
    run program 7 s =
      (.failed ⟨.storeToNonArray (some "x"), 1⟩, { s with stack := [.string "c"] }) ∧
    (execute 2 ⟨.store, some "x"⟩).run { s with stack := [.null] ++ [.bool true, .string "c"] } =
      .ok () ⟨2, [.bool true, .string "c"], [(some "x", .null)], {}, #[], ""⟩ := by
  intro limits s program
  exact ⟨((execute_footprint 2 ⟨.storeElement, some "x"⟩ s).1 _ _ rfl).2 program 6 rfl rfl nofun,
    (execute_footprint 2 ⟨.store, some "x"⟩ { s with stack := [.null] }).2
      ⟨2, [], [(some "x", .null)], {}, #[], ""⟩ _ rfl⟩

end Scriptlet.Machine
