import Scriptlet.Proofs.Decimal.Number
import Scriptlet.Proofs.Machine.Steps

/-!
# Writing and reading elements

Arrays are shared: what is written to an array through one variable is read from it through any
other variable, from the stack, and from the elements of other arrays.  An index is a number that is
cut off toward zero, so that many indexes are one place.

* `IndexOf`, `SameIndex` — the integer that a value stands for as an index.
* `slot_eq_ok_iff` — the places of an array.
* `readElement`, `readThrough` — reading an element of an array at hand, and of the array in a
  variable.
* `loadElement_write_self`, `loadElement_write_of_not` — **an element after a write**: the value
  written where it was written, and what it was before anywhere else.
* `storeElement_aliasing` — when a write succeeds, and what is read after it.
-/

set_option autoImplicit false
namespace Scriptlet.Machine

/-! ## Indexes -/

/-- A value stands for an integer as an index: it is a finite number, and the integer is what is
left when it is cut off toward zero. -/
def IndexOf (index : Value) (n : Int) : Prop :=
  ∃ x q, index = .number x ∧ Decimal.rational? x = some q ∧ Decimal.towardZero q = n

/-- Two values stand for the same integer as indexes. -/
def SameIndex (i j : Value) : Prop :=
  ∃ n, IndexOf i n ∧ IndexOf j n

section Indexes

variable {index i j : Value} {n : Int} {size k : Nat}

theorem toIndex_eq_ok_iff : toIndex index = .ok n ↔ IndexOf index n := by
  cases index with
  | number x =>
    rw [toIndex, Decimal.truncated?_eq]
    cases hx : Decimal.rational? x <;> simp [IndexOf, hx]
  | null | bool | string | char | array => simp [toIndex, IndexOf]

theorem IndexOf.unique {m : Int} (hn : IndexOf index n) (hm : IndexOf index m) : n = m := by
  rw [← toIndex_eq_ok_iff] at hn hm
  exact Except.ok.inj (hn.symm.trans hm)

theorem IndexOf.sameIndex_iff (hi : IndexOf i n) : SameIndex i j ↔ IndexOf j n :=
  ⟨fun ⟨_, hm, hj⟩ => hi.unique hm ▸ hj, fun hj => ⟨n, hi, hj⟩⟩

/-- **The places of an array** are the integers from zero to below its length. -/
theorem slot_eq_ok_iff : slot size index = .ok k ↔ IndexOf index k ∧ k < size := by
  rw [← toIndex_eq_ok_iff, slot]
  cases toIndex index with
  | error f => simp [bind, Except.bind]
  | ok n =>
    simp only [bind, Except.bind, Except.ok.injEq, Bool.and_eq_true, decide_eq_true_eq]
    split
    · next hrange =>
      simp only [pure, Except.pure, Except.ok.injEq]
      omega
    · next hrange =>
      constructor
      · intro hk
        cases hk
      · omega

end Indexes

/-! ## Elements after a write -/

section Elements

variable {h : Heap} {r k : Nat} {v w j : Value}

theorem length_elements_write (h : Heap) (r k : Nat) (v : Value) (a : Nat) :
    ((h.write r k v).elements a).length = (h.elements a).length := by
  by_cases ha : a = r
  · rw [ha, Heap.elements_write_self, List.length_set]
  · rw [Heap.elements_write_of_ne h k v ha]

theorem loadElement_array (h : Heap) (a : Nat) (j : Value) :
    loadElement h (.array a) j =
      (slot (h.elements a).length j).map fun k => (h.elements a)[k]?.getD .null := by
  rw [loadElement]
  cases slot (h.elements a).length j <;> rfl

theorem loadElement_write_self (hk : k < (h.elements r).length) (hj : IndexOf j k) :
    loadElement (h.write r k v) (.array r) j = .ok v := by
  have hslot : slot (h.elements r).length j = .ok k := slot_eq_ok_iff.2 ⟨hj, hk⟩
  rw [loadElement_array, length_elements_write, hslot, Heap.elements_write_self]
  simp only [Except.map, List.getElem?_set_self hk, Option.getD_some]

/-- A write is seen in no other array, and in its own array in no other place. -/
theorem loadElement_write_of_not (hw : ¬(w = .array r ∧ IndexOf j k)) :
    loadElement (h.write r k v) w j = loadElement h w j := by
  cases w with
  | array a =>
    rw [loadElement_array, loadElement_array, length_elements_write]
    cases hslot : slot (h.elements a).length j with
    | error f => rfl
    | ok m =>
      have hj : IndexOf j m := (slot_eq_ok_iff.1 hslot).1
      by_cases ha : a = r
      · have hm : k ≠ m := fun hkm => hw ⟨congrArg _ ha, hkm ▸ hj⟩
        rw [ha, Heap.elements_write_self]
        simp only [Except.map, List.getElem?_set_ne hm]
      · rw [Heap.elements_write_of_ne h k v ha]
  | null | bool | number | string | char => rfl

end Elements

/-! ## Instructions -/

/-- What the instruction that reads an element gives for an array and an index on the stack. -/
def readElement [Limits] (size : Nat) (s : State) (array index : Value) : Except Fault Value :=
  match (execute size ⟨.loadElement, none⟩).run { s with stack := index :: array :: s.stack } with
  | .ok _ s' => .ok (s'.stack.headD .null)
  | .error f _ => .error f

/-- Reads an element of the array in a variable. -/
def readThrough [Limits] (size : Nat) (name : Option String) (index : Value) : Action Unit := do
  execute size ⟨.load, name⟩
  push index
  execute size ⟨.loadElement, none⟩

/-- The fault that ended a run. -/
def fault? {α : Type} : EStateM.Result Fault State α → Option Fault
  | .ok _ _ => none
  | .error f _ => some f

section Instructions

variable [Limits] {size r : Nat} {s : State} {x : Option String}

/-- What is read depends on the heap only. -/
theorem readElement_eq (array index : Value) :
    readElement size s array index = loadElement s.heap array index := by
  rw [readElement, run_execute_loadElement]
  cases loadElement s.heap array index <;> rfl

theorem run_readThrough (hx : s.store.get? x = some (.array r)) (i : Value) :
    (readThrough size x i).run s =
      match loadElement s.heap (.array r) i with
      | .ok v => .ok () { s with counter := s.counter + 1 + 1, stack := v :: s.stack }
      | .error f => .error f { s with counter := s.counter + 1 } := by
  have hload : (execute size ⟨.load, x⟩).run s =
      .ok () { s with counter := s.counter + 1, stack := .array r :: s.stack } := by
    rw [run_execute_load, hx]
  rw [readThrough, EStateM.run_bind, hload]
  exact @run_execute_loadElement _ size _ _ _ _ _ _ none (.array r) i

theorem run_storeElement (hx : s.store.get? x = some (.array r)) (v i : Value) :
    (execute size ⟨.storeElement, x⟩).run { s with stack := i :: v :: s.stack } =
      match slot (s.heap.elements r).length i with
      | .ok k => .ok () { s with counter := s.counter + 1, heap := s.heap.write r k v }
      | .error f => .error f s := by
  rw [run_execute_storeElement, hx, slotOf]
  cases slot (s.heap.elements r).length i <;> rfl

end Instructions

/-- **Writing and reading agree.**  An assignment to an element of the array in a variable fails
exactly as reading that element would, and otherwise its index stands for a place of the array.
After it the variables and the rest of the stack are what they were.  Whatever value is then at hand
as an array, from a variable, the stack or an array, and whatever the index: if it is the array
written to and the indexes stand for the same integer, the value written is read, and if not, what
was read before the assignment. -/
theorem storeElement_aliasing [Limits] (size : Nat) {s : State} {x : Option String} {r : Nat}
    (hx : s.store.get? x = some (.array r)) (v i : Value) :
    let stored := (execute size ⟨.storeElement, x⟩).run { s with stack := i :: v :: s.stack }
    fault? stored = fault? ((readThrough size x i).run s) ∧
    (fault? stored = none ↔ ∃ k < (s.heap.elements r).length, IndexOf i k) ∧
    ∀ s', stored = .ok () s' →
      s'.store = s.store ∧ s'.stack = s.stack ∧
      ∀ (t : State) (w j : Value), t.heap = s'.heap →
        (w = .array r ∧ SameIndex i j → readElement size t w j = .ok v) ∧
        (¬(w = .array r ∧ SameIndex i j) →
          readElement size t w j = readElement size { t with heap := s.heap } w j) := by
  intro stored
  simp only [stored, run_storeElement hx, run_readThrough hx, loadElement_array]
  -- both ask for the place of the index, and nothing else of them can fail
  cases hslot : slot (s.heap.elements r).length i with
  | error f =>
    refine ⟨rfl, ⟨?_, ?_⟩, ?_⟩
    · intro hnone
      cases hnone
    · rintro ⟨k, hk, hi⟩
      cases hslot.symm.trans (slot_eq_ok_iff.2 ⟨hi, hk⟩)
    · intro s' hs'
      cases hs'
  | ok k =>
    obtain ⟨hi, hk⟩ := slot_eq_ok_iff.1 hslot
    refine ⟨rfl, ⟨fun _ => ⟨k, hk, hi⟩, fun _ => rfl⟩, fun s' hs' => ?_⟩
    obtain ⟨-, rfl⟩ := EStateM.Result.ok.inj hs'
    refine ⟨rfl, rfl, fun t w j ht => ?_⟩
    simp only [readElement_eq, ht, hi.sameIndex_iff]
    exact ⟨fun ⟨hw, hj⟩ => hw ▸ loadElement_write_self hk hj, loadElement_write_of_not⟩

/-- An array is written into its own first place through one of its two names, and read back through
the other one with an index below zero; its second element stays. -/
theorem storeElement_aliasing_knot :
    let _ : Limits := ⟨20, 20⟩
    let s : State := {
      store := [(some "x", .array 0), (some "y", .array 0)]
      heap := ⟨#[[.null, .string "b"]]⟩ }
    s.store.get? (some "x") = some (.array 0) ∧
    ∃ s', (execute 1 ⟨.storeElement, some "x"⟩).run
        { s with stack := .number 0.5 :: .array 0 :: s.stack } = .ok () s' ∧
      s'.store.get? (some "y") = some (.array 0) ∧
      readElement 1 s' (.array 0) (.number (-0.5)) = .ok (.array 0) ∧
      readElement 1 s' (.array 0) (.number 1) = .ok (.string "b") := by
  intro limits s
  have hx : s.store.get? (some "x") = some (.array 0) := rfl
  have hhalf : IndexOf (.number 0.5) 0 := by
    rw [← toIndex_eq_ok_iff, toIndex, show Decimal.truncated? 0.5 = some 0 by decide +kernel]
  have hminus : IndexOf (.number (-0.5)) 0 := by
    rw [← toIndex_eq_ok_iff, toIndex, show Decimal.truncated? (-0.5) = some 0 by decide +kernel]
  have hone : IndexOf (.number 1) (1 : Nat) := by
    rw [← toIndex_eq_ok_iff, toIndex, show Decimal.truncated? 1 = some 1 by decide +kernel]
    rfl
  have hother : ¬SameIndex (.number 0.5) (.number 1) := by
    rw [hhalf.sameIndex_iff]
    exact fun hzero => absurd (hzero.unique hone) (by decide)
  obtain ⟨-, hfault, hafter⟩ := storeElement_aliasing 1 hx (.array 0) (.number 0.5)
  have hnone := hfault.2 ⟨0, by decide, hhalf⟩
  cases hrun : (execute 1 ⟨.storeElement, some "x"⟩).run
      { s with stack := .number 0.5 :: .array 0 :: s.stack } with
  | error f s' =>
    rw [hrun] at hnone
    cases hnone
  | ok u s' =>
    obtain ⟨hstore, -, hread⟩ := hafter s' hrun
    refine ⟨hx, s', rfl, hstore ▸ rfl, (hread s' _ _ rfl).1 ⟨rfl, 0, hhalf, hminus⟩, ?_⟩
    have hsecond : slot (s.heap.elements 0).length (.number 1) = .ok 1 :=
      slot_eq_ok_iff.2 ⟨hone, by decide⟩
    rw [(hread s' _ _ rfl).2 fun hw => hother hw.2, readElement_eq, loadElement_array, hsecond]
    rfl

end Scriptlet.Machine
