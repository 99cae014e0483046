import Scriptlet.CommandLine.Perform
import Scriptlet.Proofs.Machine.Effect

/-!
# Running in stretches

What a run writes is printed stretch by stretch, and the text of a stretch is forgotten when the
next one starts.  Nothing is lost or printed twice by that, for an instruction adds to the text
written and never looks at it.

* `State.after text s` — the state `s`, with more text written before its own.
* `Effect.after`, `Refusal.after`, `run_after` — an instruction, and a whole run, does the same
  after any text.
* `printed_runAloud` — **what is printed is what the run writes**.
-/

set_option autoImplicit false
namespace Scriptlet.Machine

/-! ## Text written before -/

/-- The state with more text written before its own. -/
def State.after (text : String) (s : State) : State :=
  { s with written := text ++ s.written }

section

variable [Limits] {size : Nat} {s s' : State} {i : Instruction} {f : Fault}

theorem Effect.after (h : Effect size s i s') (text : String) :
    Effect size (s.after text) i (s'.after text) := by
  cases h with
  | constant hop hv => exact .constant hop hv
  | load hv => exact .load hv
  | store hs => exact .store hs
  | unary hs hr => exact .unary hs hr
  | binary hs hr => exact .binary hs hr
  | jump ht => exact .jump ht
  | jumpIfFalse hs ht => exact .jumpIfFalse hs ht
  | @print operand v line rest hs hline =>
    have hprint : Effect size (s.after text) ⟨.print, operand⟩ _ := .print hs hline
    simp only [State.after, String.append_assoc] at hprint ⊢
    exact hprint
  | makeArray hn hle => exact .makeArray hn hle
  | loadElement hs hr => exact .loadElement hs hr
  | storeElement hs hplace => exact .storeElement hs hplace

theorem Refusal.after (h : Refusal size s i f s') (text : String) :
    Refusal size (s.after text) i f (s'.after text) := by
  cases h with
  | constant hop hv => exact .constant hop hv
  | undefined hnone => exact .undefined hnone
  | underflow hs ht => exact .underflow hs ht
  | unary hs hr => exact .unary hs hr
  | binary hs hr => exact .binary hs hr
  | target hop ht => exact .target hop ht
  | print hs hline => exact .print hs hline
  | count hn => exact .count hn
  | tooFew hn hlt => exact .tooFew hn hlt
  | loadElement hs hr => exact .loadElement hs hr
  | storeElement hs hplace => exact .storeElement hs hplace
  | halt => exact .halt

theorem Step.after {program : Array Instruction} (h : Step program s s') (text : String) :
    Step program (s.after text) (s'.after text) := by
  obtain ⟨i, hfetch, hop, hrun⟩ := h
  exact ⟨i, hfetch, hop, ((effect_of_run hrun).after text).run⟩

theorem Fails.after {program : Array Instruction} (h : Fails program s f s') (text : String) :
    Fails program (s.after text) f (s'.after text) := by
  obtain ⟨i, hfetch, hop, hrun⟩ := h
  exact ⟨i, hfetch, hop, ((refusal_of_run hrun).after text).run⟩

/-- **A run does the same after any text.** -/
theorem run_after (program : Array Instruction) (n : Nat) (s : State) (text : String) :
    run program n (s.after text) =
      ((run program n s).1, (run program n s).2.after text) := by
  induction n generalizing s with
  | zero =>
    rw [run, run, show (s.after text).counter = s.counter from rfl]
    cases fetch program s.counter with
    | after | before => rfl
    | instruction i =>
      dsimp only
      split <;> rfl
  | succ n ih =>
    cases hfetch : fetch program s.counter with
    | after | before => rw [run, run, show (s.after text).counter = s.counter from rfl, hfetch]
    | instruction i =>
      by_cases hop : i.opcode = .halt
      · rw [run_of_halt hfetch hop]
        exact run_of_halt hfetch hop
      · cases hrun : (execute program.size i).run s with
        | ok u s' =>
          have hstep : Step program s s' := ⟨i, hfetch, hop, hrun⟩
          rw [run_of_step hstep, run_of_step (hstep.after text), ih]
        | error f s' =>
          have hfails : Fails program s f s' := ⟨i, hfetch, hop, hrun⟩
          rw [run_of_fails hfails, run_of_fails (hfails.after text)]
          rfl

end

/-! ## Printing what was written -/

open CommandLine

/-- **What is printed is what the run writes.**  A program that is run in a number of stretches from
a state with nothing written prints what it writes in as many steps. -/
theorem printed_runAloud [Limits] (program : Array Instruction) (stretches : Nat) {s : State}
    (hs : s.written = "") (t : Session) :
    ((runAloud Session.host program stretches s).run t).2 =
      { t with printed := t.printed ++ (run program (stretches * stretch) s).2.written } := by
  induction stretches generalizing s t with
  | zero =>
    rw [Nat.zero_mul, run_zero_snd, hs, String.append_empty]
    rfl
  | succ more ih =>
    obtain ⟨ending, s', hrun⟩ : ∃ ending s', run program stretch s = (ending, s') := ⟨_, _, rfl⟩
    rw [runAloud, hrun, Nat.succ_mul, Nat.add_comm]
    by_cases hending : ending = .outOfSteps
    · subst hending
      have hgo : run program (stretch + more * stretch) s = run program (more * stretch) s' := by
        rw [run_add_of_outOfSteps (by rw [hrun]), hrun]
      -- the next stretch starts with nothing written, and what it writes comes after `s'.written`
      have hnext : State.after s'.written { s' with written := "" } = s' := by
        rw [State.after, String.append_empty]
      have hafter := run_after program (more * stretch) { s' with written := "" } s'.written
      rw [hnext] at hafter
      rw [hgo, hafter, State.after, ← String.append_assoc]
      exact ih rfl { t with printed := t.printed ++ s'.written }
    · have hover : run program (stretch + more * stretch) s = (ending, s') := by
        rw [run_add_of_ended (by rw [hrun]; exact hending), hrun]
      rw [hover]
      cases ending with
      | outOfSteps => exact absurd rfl hending
      | _ => rfl

end Scriptlet.Machine
