import Mathlib
import Scriptlet.Heap

/-!
# What a value unfolds to

A value may refer to an array, whose elements may refer to arrays in turn.  Written out, a value is
a datum: a tree with constants at its leaves.  Shared arrays are written out once for each
reference, and an array that contains itself cannot be written out at all.

## What is here

* `Datum.height` — how many calls are open at once when a datum is gone through.
* `Heap.Unfolds h v d` — **the value `v` written out is `d`**.  There is at most one such datum
  (`Unfolds.unique`).
* `Heap.Contains`, `Heap.Reaches`, `Heap.Cyclic` — the arrays of a heap as a graph.
* `exists_unfolds_iff` — a value can be written out exactly if no array that contains itself can be
  reached from it.
-/

set_option autoImplicit false
namespace Scriptlet

/-! ## Data -/

/-- Every value is a constant or refers to an array. -/
theorem Value.ofLiteral_or_array (v : Value) : (∃ l, v = ofLiteral l) ∨ ∃ a, v = array a := by
  cases v with
  | null => exact .inl ⟨.null, rfl⟩
  | bool b => exact .inl ⟨.bool b, rfl⟩
  | number x => exact .inl ⟨.number x, rfl⟩
  | string s => exact .inl ⟨.string s, rfl⟩
  | char c => exact .inl ⟨.char c, rfl⟩
  | array a => exact .inr ⟨a, rfl⟩

theorem Value.ofLiteral_injective : Function.Injective ofLiteral := by
  intro l m h
  cases l <;> cases m <;> cases h <;> rfl

theorem Value.ofLiteral_ne_array (l : Literal) (a : Nat) : ofLiteral l ≠ array a := by
  cases l <;> exact Value.noConfusion

namespace Datum

/-- Induction on data, with one case for lists that covers all their items. -/
@[elab_as_elim, induction_eliminator]
theorem ind {motive : Datum → Prop} (scalar : ∀ l, motive (.scalar l))
    (list : ∀ items, (∀ d ∈ items, motive d) → motive (.list items)) (d : Datum) : motive d :=
  @Datum.rec motive (fun items => ∀ d ∈ items, motive d) scalar list
    (fun _ h => absurd h List.not_mem_nil)
    (fun _ _ hd hitems => List.forall_mem_cons.2 ⟨hd, hitems⟩) d

mutual

/-- How many calls going through a datum takes: one for the datum, and inside it those for its
items.  A list without items takes as many as a constant. -/
def height : Datum → Nat
  | .scalar _ => 1
  | .list items => heightAll items + 1

/-- How many calls going through the highest of some data takes. -/
def heightAll : List Datum → Nat
  | [] => 0
  | d :: ds => max d.height (heightAll ds)

end

theorem height_pos (d : Datum) : 0 < d.height := by
  cases d <;> exact Nat.succ_pos _

theorem heightAll_le_iff {items : List Datum} {n : Nat} :
    heightAll items ≤ n ↔ ∀ d ∈ items, d.height ≤ n := by
  induction items with
  | nil => simp [heightAll]
  | cons d ds ih => rw [heightAll, Nat.max_le, ih, List.forall_mem_cons]

theorem height_list_le_succ_iff {items : List Datum} {n : Nat} :
    (list items).height ≤ n + 1 ↔ ∀ d ∈ items, d.height ≤ n := by
  rw [height, Nat.add_le_add_iff_right, heightAll_le_iff]

theorem height_lt_of_mem {items : List Datum} {d : Datum} (h : d ∈ items) :
    d.height < (list items).height :=
  Nat.lt_succ_of_le (heightAll_le_iff.1 le_rfl d h)

end Datum

/-! ## Pairs of lists -/

section Lists

variable {α β : Type} {R : α → β → Prop} {xs : List α} {ys : List β}

theorem exists_of_forall₂ (h : List.Forall₂ R xs ys) {x : α} (hx : x ∈ xs) : ∃ y ∈ ys, R x y := by
  induction h with
  | nil => exact absurd hx List.not_mem_nil
  | cons hfirst _ ih =>
    rcases List.mem_cons.1 hx with rfl | hx
    · exact ⟨_, List.mem_cons_self, hfirst⟩
    · obtain ⟨y, hy, hxy⟩ := ih hx
      exact ⟨y, List.mem_cons_of_mem _ hy, hxy⟩

theorem exists_forall₂ (h : ∀ x ∈ xs, ∃ y, R x y) : ∃ ys, List.Forall₂ R xs ys := by
  induction xs with
  | nil => exact ⟨[], .nil⟩
  | cons x xs ih =>
    obtain ⟨⟨y, hy⟩, hrest⟩ := List.forall_mem_cons.1 h
    obtain ⟨ys, hys⟩ := ih hrest
    exact ⟨y :: ys, .cons hy hys⟩

theorem forall₂_and_right {P : β → Prop} :
    List.Forall₂ (fun x y => R x y ∧ P y) xs ys ↔ List.Forall₂ R xs ys ∧ ∀ y ∈ ys, P y := by
  have hleft := List.forall₂_and_left (R := flip R) (p := P) ys xs
  constructor
  · intro h
    obtain ⟨hP, hR⟩ := hleft.1 (h.imp fun _ _ => And.symm).flip
    exact ⟨hR.flip, hP⟩
  · rintro ⟨hR, hP⟩
    exact (hleft.2 ⟨hP, hR.flip⟩).flip.imp fun _ _ => And.symm

theorem mapM_eq_some_iff {f : α → Option β} :
    xs.mapM f = some ys ↔ List.Forall₂ (fun x y => f x = some y) xs ys := by
  induction xs generalizing ys with
  | nil => simp [eq_comm]
  | cons x xs ih =>
    rw [List.forall₂_cons_left_iff]
    cases hx : f x with
    | none => simp [List.mapM_cons, hx]
    | some y =>
      simp only [List.mapM_cons, hx, Option.bind_eq_bind, Option.bind_some,
        Option.bind_eq_some_iff, ih]
      simp [eq_comm]

end Lists

/-! ## Unfolding -/

namespace Heap

/-- A value written out is a datum. -/
inductive Unfolds (h : Heap) : Value → Datum → Prop
  | scalar {v : Value} {l : Literal} (hv : v = .ofLiteral l) : Unfolds h v (.scalar l)
  | array {a : Nat} {items : List Datum} (hitems : List.Forall₂ (Unfolds h) (h.elements a) items) :
      Unfolds h (.array a) (.list items)

variable {h : Heap}

theorem unfolds_ofLiteral_iff {l : Literal} {d : Datum} :
    h.Unfolds (.ofLiteral l) d ↔ d = .scalar l := by
  constructor
  · intro hd
    generalize hv : Value.ofLiteral l = v at hd
    cases hd with
    | scalar hm => rw [Value.ofLiteral_injective (hv.trans hm)]
    | array _ => exact absurd hv (Value.ofLiteral_ne_array l _)
  · rintro rfl
    exact .scalar rfl

theorem unfolds_array_iff {a : Nat} {d : Datum} :
    h.Unfolds (.array a) d ↔
      ∃ items, d = .list items ∧ List.Forall₂ h.Unfolds (h.elements a) items := by
  constructor
  · rintro (hl | hitems)
    · exact absurd hl.symm (Value.ofLiteral_ne_array _ a)
    · exact ⟨_, rfl, hitems⟩
  · rintro ⟨items, rfl, hitems⟩
    exact .array hitems

/-- A value written out, with a number of calls; nothing if that takes more. -/
def unfolding? (h : Heap) : Nat → Value → Option Datum
  | 0, _ => none
  | _ + 1, .null => some (.scalar .null)
  | _ + 1, .bool b => some (.scalar (.bool b))
  | _ + 1, .number x => some (.scalar (.number x))
  | _ + 1, .string s => some (.scalar (.string s))
  | _ + 1, .char c => some (.scalar (.char c))
  | calls + 1, .array a => ((h.elements a).mapM (h.unfolding? calls)).map .list

theorem unfolding?_ofLiteral (n : Nat) (l : Literal) :
    h.unfolding? (n + 1) (.ofLiteral l) = some (.scalar l) := by
  cases l <;> rfl

/-- **A number of calls is enough to write a value out exactly if it is no less than the
height.** -/
theorem unfolding?_eq_some_iff {n : Nat} {v : Value} {d : Datum} :
    h.unfolding? n v = some d ↔ h.Unfolds v d ∧ d.height ≤ n := by
  induction n generalizing v d with
  | zero =>
    rw [unfolding?]
    exact iff_of_false (Option.some_ne_none d).symm fun hd => Nat.not_le_of_lt d.height_pos hd.2
  | succ n ih =>
    rcases v.ofLiteral_or_array with ⟨l, rfl⟩ | ⟨a, rfl⟩
    · rw [unfolding?_ofLiteral, unfolds_ofLiteral_iff, Option.some.injEq, eq_comm]
      exact ⟨fun hd => ⟨hd, hd ▸ Nat.le_add_left 1 n⟩, And.left⟩
    · have hitems (items : List Datum) : (h.elements a).mapM (h.unfolding? n) = some items ↔
          List.Forall₂ h.Unfolds (h.elements a) items ∧ ∀ d ∈ items, d.height ≤ n := by
        rw [mapM_eq_some_iff, ← forall₂_and_right]
        simp only [ih]
      rw [unfolding?, Option.map_eq_some_iff, unfolds_array_iff]
      constructor
      · rintro ⟨items, hsome, rfl⟩
        obtain ⟨hunfolds, hle⟩ := (hitems items).1 hsome
        exact ⟨⟨items, rfl, hunfolds⟩, Datum.height_list_le_succ_iff.2 hle⟩
      · rintro ⟨⟨items, rfl, hunfolds⟩, hle⟩
        exact ⟨items, (hitems items).2 ⟨hunfolds, Datum.height_list_le_succ_iff.1 hle⟩, rfl⟩

/-- **There is at most one way to write a value out.** -/
theorem Unfolds.unique {v : Value} {d e : Datum} (hd : h.Unfolds v d) (he : h.Unfolds v e) :
    d = e := by
  have hd' := unfolding?_eq_some_iff.2 ⟨hd, le_max_left d.height e.height⟩
  have he' := unfolding?_eq_some_iff.2 ⟨he, le_max_right d.height e.height⟩
  exact Option.some.inj (hd'.symm.trans he')

/-! ## Arrays in arrays -/

/-- One array is an element of another. -/
def Contains (h : Heap) (a b : Nat) : Prop :=
  .array b ∈ h.elements a

/-- An array is the one that a value refers to, or can be reached from it through elements. -/
def Reaches (h : Heap) (v : Value) (b : Nat) : Prop :=
  ∃ a, v = .array a ∧ Relation.ReflTransGen h.Contains a b

theorem Reaches.tail {v : Value} {b c : Nat} (hb : h.Reaches v b) (hc : h.Contains b c) :
    h.Reaches v c := by
  obtain ⟨a, rfl, hab⟩ := hb
  exact ⟨a, rfl, hab.tail hc⟩

/-- An array contains itself, directly or through others. -/
def Cyclic (h : Heap) (a : Nat) : Prop :=
  Relation.TransGen h.Contains a a

section

variable {a b : Nat} {d : Datum}

/-- What an array contains unfolds if the array does, to something lower. -/
theorem Unfolds.of_contains (hd : h.Unfolds (.array a) d) (hb : h.Contains a b) :
    ∃ e, h.Unfolds (.array b) e ∧ e.height < d.height := by
  obtain ⟨items, rfl, hitems⟩ := unfolds_array_iff.1 hd
  obtain ⟨e, hmem, he⟩ := exists_of_forall₂ hitems hb
  exact ⟨e, he, Datum.height_lt_of_mem hmem⟩

theorem Unfolds.of_transGen (hd : h.Unfolds (.array a) d)
    (hb : Relation.TransGen h.Contains a b) :
    ∃ e, h.Unfolds (.array b) e ∧ e.height < d.height := by
  induction hb with
  | single hb => exact hd.of_contains hb
  | tail _ hc ih =>
    obtain ⟨e, he, hlt⟩ := ih
    obtain ⟨f, hf, hlt'⟩ := he.of_contains hc
    exact ⟨f, hf, hlt'.trans hlt⟩

theorem Unfolds.of_reaches {v : Value} (hd : h.Unfolds v d) (hb : h.Reaches v b) :
    ∃ e, h.Unfolds (.array b) e := by
  obtain ⟨a, rfl, hab⟩ := hb
  rcases Relation.reflTransGen_iff_eq_or_transGen.1 hab with rfl | hab
  · exact ⟨d, hd⟩
  · exact (hd.of_transGen hab).imp fun _ => And.left

/-- An array that unfolds does not contain itself: it would be lower than it is. -/
theorem Unfolds.not_cyclic (hd : h.Unfolds (.array a) d) : ¬h.Cyclic a := by
  intro hcyclic
  obtain ⟨e, he, hlt⟩ := hd.of_transGen hcyclic
  exact absurd hlt (he.unique hd ▸ lt_irrefl _)

/-- An array unfolds if all that it contains does. -/
theorem exists_unfolds_array (hall : ∀ b, h.Contains a b → ∃ d, h.Unfolds (.array b) d) :
    ∃ d, h.Unfolds (.array a) d := by
  have helements : ∀ v ∈ h.elements a, ∃ d, h.Unfolds v d := by
    intro v hv
    rcases v.ofLiteral_or_array with ⟨l, rfl⟩ | ⟨b, rfl⟩
    · exact ⟨.scalar l, .scalar rfl⟩
    · exact hall b hv
  obtain ⟨items, hitems⟩ := exists_forall₂ helements
  exact ⟨.list items, .array hitems⟩

theorem exists_unfolds_of_size_le (ha : h.size ≤ a) : ∃ d, h.Unfolds (.array a) d := by
  refine exists_unfolds_array fun b hb => ?_
  rw [Contains, h.elements_of_size_le ha] at hb
  exact absurd hb List.not_mem_nil

/-- **An array from which no array that contains itself can be reached unfolds.**  There are
finitely many arrays, so without cycles there is no way to go down for ever. -/
theorem exists_unfolds_of_acyclic (hacyclic : ∀ b, h.Reaches (.array a) b → ¬h.Cyclic b) :
    ∃ d, h.Unfolds (.array a) d := by
  let Below := { b : Nat // h.Reaches (.array a) b ∧ b < h.size }
  let inside (b c : Below) : Prop := Relation.TransGen h.Contains c.1 b.1
  have hfinite : Finite Below :=
    Finite.of_injective (fun b : Below => (⟨b.1, b.2.2⟩ : Fin h.size)) fun b c hbc =>
      Subtype.ext (Fin.mk.inj hbc)
  have htrans : IsTrans Below inside := ⟨fun _ _ _ hbc hcd => hcd.trans hbc⟩
  have hirrefl : Std.Irrefl inside := ⟨fun b hb => hacyclic b.1 b.2.1 hb⟩
  have hbelow : ∀ b : Below, ∃ d, h.Unfolds (.array b.1) d := by
    intro b
    induction b using (Finite.wellFounded_of_trans_of_irrefl inside).induction with
    | _ b ih =>
      refine exists_unfolds_array fun c hc => ?_
      rcases Nat.lt_or_ge c h.size with hlt | hge
      · exact ih ⟨c, b.2.1.tail hc, hlt⟩ (.single hc)
      · exact exists_unfolds_of_size_le hge
  rcases Nat.lt_or_ge a h.size with hlt | hge
  · exact hbelow ⟨a, ⟨a, rfl, .refl⟩, hlt⟩
  · exact exists_unfolds_of_size_le hge

end

/-- **A value can be written out exactly if no array that contains itself can be reached from
it.** -/
theorem exists_unfolds_iff {v : Value} :
    (∃ d, h.Unfolds v d) ↔ ∀ a, h.Reaches v a → ¬h.Cyclic a := by
  constructor
  · rintro ⟨d, hd⟩ a ha
    obtain ⟨e, he⟩ := hd.of_reaches ha
    exact he.not_cyclic
  · intro hacyclic
    rcases v.ofLiteral_or_array with ⟨l, rfl⟩ | ⟨a, rfl⟩
    · exact ⟨.scalar l, .scalar rfl⟩
    · exact exists_unfolds_of_acyclic hacyclic

end Heap

end Scriptlet
