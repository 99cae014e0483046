import Scriptlet.Proofs.Heap.Unfolding
import Scriptlet.Proofs.Machine.Effect

/-!
# How values are shown

Showing a value goes over a graph and may not come to an end, so it is cut off at a number of calls
that may be open at once.  A datum is a tree, and has a text by recursion.  The two meet in one
equation (`render_eq`): **a value is shown as the text of the datum it unfolds to**, if that is no
higher than the number of calls, and not at all otherwise.

* `Literal.text`, `Datum.text` — the text of a datum.
* `Heap.render_eq` — showing a value is writing it out and taking the text.
* `Machine.FailsToShow` — what becomes of a run that is to show a value and cannot.
* `Machine.shown_or_fails` — a value is shown in full, or the run fails and has done nothing.
* `Datum.nesting`, `Machine.no_nesting_bound` — the height is not the number of arrays inside each
  other, and no bound on that number decides which values are shown.
-/

set_option autoImplicit false
namespace Scriptlet

/-! ## The text of a datum -/

/-- A text without `.0` at its end. -/
def withoutZeroFraction (text : String) : String :=
  match text.toList.reverse with
  | '0' :: '.' :: rest => String.ofList rest.reverse
  | _ => text

/-- The text of a constant: a number in full, but without a fraction that is zero. -/
def Literal.text : Literal → String
  | .null => "null"
  | .bool true => "true"
  | .bool false => "false"
  | .number x => withoutZeroFraction (Decimal.write x)
  | .string s => s
  | .char c => String.singleton c

mutual

/-- The text of a datum: a list in brackets, with commas between its items. -/
def Datum.text : Datum → String
  | .scalar l => l.text
  | .list items => "[" ++ String.intercalate ", " (Datum.texts items) ++ "]"

/-- The texts of some data. -/
def Datum.texts : List Datum → List String
  | [] => []
  | d :: ds => d.text :: Datum.texts ds

end

theorem Datum.texts_eq_map (ds : List Datum) : Datum.texts ds = ds.map Datum.text := by
  induction ds with
  | nil => rfl
  | cons d ds ih => rw [Datum.texts, ih, List.map_cons]

/-! ## Showing is writing out and taking the text -/

theorem Decimal.ofList_dropZeroFraction (cs : List Char) :
    String.ofList (dropZeroFraction cs) = withoutZeroFraction (String.ofList cs) := by
  rw [withoutZeroFraction, String.toList_ofList, dropZeroFraction]
  by_cases hsuffix : ['.', '0'].isSuffixOf cs = true
  · rw [if_pos hsuffix]
    obtain ⟨front, rfl⟩ := List.isSuffixOf_iff_suffix.1 hsuffix
    simp
  · rw [if_neg hsuffix]
    split
    · next rest hrest =>
      have hcs : cs = rest.reverse ++ ['.', '0'] := by simpa using congrArg List.reverse hrest
      exact absurd (List.isSuffixOf_iff_suffix.2 ⟨rest.reverse, hcs.symm⟩) hsuffix
    · rfl

namespace Heap

variable {h : Heap}

theorem render_ofLiteral (n : Nat) (l : Literal) :
    h.render (n + 1) (.ofLiteral l) = some l.text := by
  cases l with
  | bool b => cases b <;> rfl
  | number x =>
    have hbrief : Decimal.writeBrief x = (Literal.number x).text :=
      Decimal.ofList_dropZeroFraction _
    exact congrArg some hbrief
  | null | string | char => rfl

theorem mapM_map {α β γ : Type} (g : α → Option β) (f : β → γ) (xs : List α) :
    xs.mapM (fun x => (g x).map f) = (xs.mapM g).map (List.map f) := by
  induction xs with
  | nil => rfl
  | cons x xs ih =>
    cases hx : g x with
    | none => simp [List.mapM_cons, hx]
    | some y => simp [List.mapM_cons, hx, ih, Option.map_bind, Option.bind_map]

/-- **Showing a value is writing it out and taking the text.** -/
theorem render_eq (n : Nat) (v : Value) : h.render n v = (h.unfolding? n v).map Datum.text := by
  induction n generalizing v with
  | zero => rw [render, unfolding?, Option.map_none]
  | succ n ih =>
    rcases v.ofLiteral_or_array with ⟨l, rfl⟩ | ⟨a, rfl⟩
    · rw [render_ofLiteral, unfolding?_ofLiteral, Option.map_some, Datum.text]
    · rw [render, unfolding?, funext ih, mapM_map]
      cases (h.elements a).mapM (h.unfolding? n) with
      | none => rfl
      | some items => simp [Datum.text, Datum.texts_eq_map]

end Heap

/-! ## Runs that show values -/

namespace Machine

section

variable [Limits] {h : Heap} {v : Value}

/-- A value is shown exactly if it unfolds to a datum that is not too high. -/
theorem shown_eq_ok_iff {text : String} :
    shown h v = .ok text ↔ ∃ d, h.Unfolds v d ∧ d.height ≤ Limits.calls ∧ d.text = text := by
  have hshown : shown h v = .ok text ↔ h.render Limits.calls v = some text := by
    rw [shown]
    cases h.render Limits.calls v <;> simp
  simp only [hshown, Heap.render_eq, Option.map_eq_some_iff, Heap.unfolding?_eq_some_iff, and_assoc]

/-- There is one fault that showing a value can have. -/
theorem shown_eq_error_of_ne (hne : ∀ text, shown h v ≠ .ok text) :
    shown h v = .error .nestedTooDeeply := by
  revert hne
  rw [shown]
  cases h.render Limits.calls v with
  | some text => exact fun hne => absurd rfl (hne text)
  | none => exact fun _ => rfl

theorem shown_eq_error (hhigh : ¬∃ d, h.Unfolds v d ∧ d.height ≤ Limits.calls) :
    shown h v = .error .nestedTooDeeply := by
  refine shown_eq_error_of_ne fun text htext => hhigh ?_
  obtain ⟨d, hd, hle, -⟩ := shown_eq_ok_iff.1 htext
  exact ⟨d, hd, hle⟩

/-- A string and a value that cannot be shown have no sum, in either order. -/
theorem add_eq_error (hshown : shown h v = .error .nestedTooDeeply) (text : String) :
    add h v (.string text) = .error .nestedTooDeeply ∧
      add h (.string text) v = .error .nestedTooDeeply := by
  constructor
  · have hadd : add h v (.string text) = (do
        let s ← shown h v
        let t ← shown h (.string text)
        return .string (s ++ t)) := by
      cases v <;> rfl
    rw [hadd, hshown]
    rfl
  · have hadd : add h (.string text) v = (do
        let s ← shown h (.string text)
        let t ← shown h v
        return .string (s ++ t)) := by
      cases v <;> rfl
    rw [hadd, hshown]
    -- with no calls at all the string cannot be shown either, and the fault is the same
    rw [shown]
    cases h.render Limits.calls (.string text) <;> rfl

end

/-- The next instruction is to show a value: it prints the value, or adds it to a string.  The
other values on the stack are given. -/
def IsToShow (v : Value) (rest : List Value) (i : Instruction) (s : State) : Prop :=
  i.opcode = .print ∧ s.stack = v :: rest ∨
    i.opcode = .binary .add ∧
      ∃ text, s.stack = v :: .string text :: rest ∨ s.stack = .string text :: v :: rest

/-- A run that is to show a value fails, since the value is nested too deeply.  Its operands are
gone from the stack, and that is all: nothing is printed or written, and the variables and the heap
are as before. -/
def FailsToShow [Limits] (h : Heap) (v : Value) : Prop :=
  ∀ (program : Array Instruction) (i : Instruction) (s : State) (rest : List Value) (steps : Nat),
    s.heap = h → fetch program s.counter = .instruction i → IsToShow v rest i s →
      run program (steps + 1) s = (.failed ⟨.nestedTooDeeply, s.counter⟩, { s with stack := rest })

theorem failsToShow [Limits] {h : Heap} {v : Value}
    (hshown : shown h v = .error .nestedTooDeeply) : FailsToShow h v := by
  rintro program ⟨op, operand⟩ s rest steps rfl hfetch htoShow
  have hrefusal : op ≠ .halt ∧
      Refusal program.size s ⟨op, operand⟩ .nestedTooDeeply { s with stack := rest } := by
    rcases htoShow with ⟨rfl, hstack⟩ | ⟨rfl, text, hstack | hstack⟩
    · exact ⟨Opcode.noConfusion, .print hstack hshown⟩
    · exact ⟨Opcode.noConfusion, .binary hstack (add_eq_error hshown text).2⟩
    · exact ⟨Opcode.noConfusion, .binary hstack (add_eq_error hshown text).1⟩
  exact run_of_fails ⟨_, hfetch, hrefusal.1, hrefusal.2.run⟩

/-- A value that is shown can be printed. -/
theorem not_failsToShow [Limits] {h : Heap} {v : Value} {text : String}
    (hshown : shown h v = .ok text) : ¬FailsToShow h v := by
  intro hfails
  let s : State := { stack := [v], heap := h }
  have hrun := hfails #[⟨.print, none⟩] ⟨.print, none⟩ s [] 0 rfl rfl (.inl ⟨rfl, rfl⟩)
  have hprint : Effect 1 s ⟨.print, none⟩ _ := .print rfl hshown
  rw [run_of_step ⟨⟨.print, none⟩, rfl, Opcode.noConfusion, hprint.run⟩, run] at hrun
  exact Ending.noConfusion (Prod.mk.inj hrun).1

/-- **A value is shown in full, or the run fails and has done nothing.**  There is one bound, on the
number of calls that may be open at once.  A value that unfolds to a datum no higher than the bound
is shown as the text of the datum.  With any other value, a run that is to show it fails: in
particular, with every value from which an array that contains itself can be reached, and these are
the values that do not unfold to a datum at all. -/
theorem shown_or_fails [Limits] (h : Heap) (v : Value) :
    (∀ d, h.Unfolds v d → d.height ≤ Limits.calls → shown h v = .ok d.text) ∧
    ((¬∃ d, h.Unfolds v d ∧ d.height ≤ Limits.calls) ↔ FailsToShow h v) ∧
    (∀ a, h.Reaches v a → h.Cyclic a → FailsToShow h v) ∧
    ((∃ d, h.Unfolds v d) ↔ ∀ a, h.Reaches v a → ¬h.Cyclic a) := by
  refine ⟨fun d hd hle => shown_eq_ok_iff.2 ⟨d, hd, hle, rfl⟩, ⟨fun hhigh => ?_, ?_⟩,
    fun a ha hcyclic => ?_, Heap.exists_unfolds_iff⟩
  · exact failsToShow (shown_eq_error hhigh)
  · rintro hfails ⟨d, hd, hle⟩
    exact not_failsToShow (shown_eq_ok_iff.2 ⟨d, hd, hle, rfl⟩) hfails
  · refine failsToShow (shown_eq_error ?_)
    rintro ⟨d, hd, -⟩
    exact Heap.exists_unfolds_iff.1 ⟨d, hd⟩ a ha hcyclic

/-- One of two arrays that contain each other, added to a string, cannot be shown; an array that has
another one in two places can. -/
theorem shown_or_fails_knot :
    let _ : Limits := ⟨20, 20⟩
    let h : Heap := ⟨#[[.string "a", .array 1], [.array 0], [.array 3, .char 'c', .array 3], []]⟩
    let s : State := { stack := [.string "b", .array 0, .null], heap := h, output := #["before"] }
    run #[⟨.binary .add, none⟩] 9 s =
      (.failed ⟨.nestedTooDeeply, 0⟩, { s with stack := [.null] }) ∧
    shown h (.array 2) = .ok "[[], c, []]" := by
  intro limits h s
  have hcyclic : h.Cyclic 0 :=
    .tail (.single (List.mem_cons_of_mem _ List.mem_cons_self)) List.mem_cons_self
  have hempty : h.Unfolds (.array 3) (.list []) := .array .nil
  refine ⟨(shown_or_fails h (.array 0)).2.2.1 0 ⟨0, rfl, .refl⟩ hcyclic _ _ s [.null] 8 rfl rfl
    (.inr ⟨rfl, "b", .inr rfl⟩), ?_⟩
  exact (shown_or_fails h (.array 2)).1 (.list [.list [], .scalar (.char 'c'), .list []])
    (.array (.cons hempty (.cons (.scalar rfl) (.cons hempty .nil)))) (by decide)

end Machine

/-! ## Arrays inside each other -/

mutual

/-- How many arrays of a datum are inside each other. -/
def Datum.nesting : Datum → Nat
  | .scalar _ => 0
  | .list items => Datum.nestingAll items + 1

/-- How many arrays are inside each other in one of some data. -/
def Datum.nestingAll : List Datum → Nat
  | [] => 0
  | d :: ds => max d.nesting (Datum.nestingAll ds)

end

/-- A datum with a number of arrays around it. -/
def Datum.wrap : Nat → Datum → Datum
  | 0, d => d
  | n + 1, d => .list [d.wrap n]

theorem Datum.nesting_wrap (n : Nat) (d : Datum) : (d.wrap n).nesting = d.nesting + n := by
  induction n with
  | zero => rfl
  | succ n ih => rw [wrap, nesting, nestingAll, nestingAll, ih, Nat.max_zero, Nat.add_assoc]

theorem Datum.height_wrap (n : Nat) (d : Datum) : (d.wrap n).height = d.height + n := by
  induction n with
  | zero => rfl
  | succ n ih => rw [wrap, height, heightAll, heightAll, ih, Nat.max_zero, Nat.add_assoc]

/-- A number of arrays around one that has given elements; each has the one before it as its only
element. -/
def Heap.tower (n : Nat) (innermost : List Value) : Heap :=
  ⟨Array.ofFn fun i : Fin (n + 1) => match i.1 with
    | 0 => innermost
    | k + 1 => [.array k]⟩

theorem Heap.unfolds_tower {n k : Nat} {vs : List Value} {items : List Datum} (hk : k ≤ n)
    (hvs : List.Forall₂ (tower n vs).Unfolds vs items) :
    (tower n vs).Unfolds (.array k) ((Datum.list items).wrap k) := by
  induction k with
  | zero =>
    have helements : (tower n vs).elements 0 = vs := by simp [tower, elements]
    exact .array (helements.symm ▸ hvs)
  | succ k ih =>
    have helements : (tower n vs).elements (k + 1) = [.array k] := by
      simp [tower, elements, Nat.lt_of_succ_le hk]
    exact .array (helements.symm ▸ .cons (ih (Nat.le_of_succ_le hk)) .nil)

namespace Machine

/-- **No bound on the arrays inside each other decides which values are shown**, whatever the number
of calls.  Arrays around an empty one take a call less than as many arrays around a constant. -/
theorem no_nesting_bound :
    ¬∃ (_ : Limits) (bound : Nat), 100 ≤ bound ∧ bound < 2000 ∧ ∀ (h : Heap) (v : Value),
      (∀ d, h.Unfolds v d → d.nesting ≤ bound → shown h v = .ok d.text) ∧
      ((¬∃ d, h.Unfolds v d ∧ d.nesting ≤ bound) → FailsToShow h v) := by
  rintro ⟨limits, bound, hbound, -, hall⟩
  obtain ⟨n, rfl⟩ := Nat.exists_eq_add_of_le' (Nat.le_trans (by decide) hbound : 1 ≤ bound)
  -- as many arrays as are allowed around a constant
  have hfull : (Heap.tower n [.null]).Unfolds (.array n) ((Datum.list [.scalar .null]).wrap n) :=
    Heap.unfolds_tower le_rfl (.cons (.scalar rfl) .nil)
  have hfullNesting : ((Datum.list [.scalar .null]).wrap n).nesting = n + 1 := by
    rw [Datum.nesting_wrap, Nat.add_comm]
    rfl
  obtain ⟨d, hd, hcalls, -⟩ := shown_eq_ok_iff.1 ((hall _ _).1 _ hfull hfullNesting.le)
  obtain rfl := hd.unique hfull
  rw [Datum.height_wrap] at hcalls
  -- and one array more than are allowed, the innermost of them empty
  have hempty : (Heap.tower (n + 1) []).Unfolds (.array (n + 1)) ((Datum.list []).wrap (n + 1)) :=
    Heap.unfolds_tower le_rfl .nil
  have hheight : ((Datum.list []).wrap (n + 1)).height ≤ Limits.calls := by
    rw [Datum.height_wrap, ← Nat.succ_add_eq_add_succ]
    exact hcalls
  refine not_failsToShow (shown_eq_ok_iff.2 ⟨_, hempty, hheight, rfl⟩) ((hall _ _).2 ?_)
  rintro ⟨e, he, hle⟩
  obtain rfl := he.unique hempty
  rw [Datum.nesting_wrap, Nat.add_comm] at hle
  exact absurd hle (Nat.not_succ_le_self _)

end Machine

end Scriptlet
