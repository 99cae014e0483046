import Scriptlet.Machine.Operation
import Scriptlet.Proofs.Decimal.Number
import Scriptlet.Proofs.Heap.Unfolding

/-!
# When values are equal

Comparing two values goes over a graph from left to right and stops at the first difference, so that
values which cannot be written out may still be found different.  They are never found equal: **two
values are equal exactly if they can both be written out, no deeper than comparing goes, to data
with the same shape and equal leaves** (`equal_eq_true_iff`).  What equality of values is good for
follows from what equality of data is good for.

* `Literal.Same`, `Datum.Same` — equality of constants and of data.
* `Datum.HasLeaf` — the constants in a datum.
* `Heap.equal_comm` — two values in either order: equal, different, or nested too deeply.
* `Machine.compared_partialEquivalence` — equality of values is a partial equivalence.
-/

set_option autoImplicit false
namespace Scriptlet

/-! ## Equality of data -/

/-- Two constants are equal: they are of one kind and have the same content. -/
inductive Literal.Same : Literal → Literal → Prop
  | null : Same .null .null
  | bool (b : Bool) : Same (.bool b) (.bool b)
  | number {x y : Float} (hxy : (x == y) = true) : Same (.number x) (.number y)
  | string (s : String) : Same (.string s) (.string s)
  | char (c : Char) : Same (.char c) (.char c)

/-- Two data are equal: they have the same shape and equal leaves. -/
inductive Datum.Same : Datum → Datum → Prop
  | scalar {l m : Literal} (hlm : l.Same m) : Same (.scalar l) (.scalar m)
  | list {items others : List Datum} (hitems : List.Forall₂ Same items others) :
      Same (.list items) (.list others)

/-- A constant is somewhere in a datum. -/
inductive Datum.HasLeaf (l : Literal) : Datum → Prop
  | here : HasLeaf l (.scalar l)
  | inside {d : Datum} {items : List Datum} (hmem : d ∈ items) (hd : HasLeaf l d) :
      HasLeaf l (.list items)

theorem Literal.Same.trans {l m n : Literal} (hlm : l.Same m) (hmn : m.Same n) : l.Same n := by
  cases hlm with
  | number hxy =>
    cases hmn with
    | number hyz => exact .number (Decimal.beq_trans hxy hyz)
  | null | bool | string | char => exact hmn

theorem Literal.same_self_iff {l : Literal} :
    l.Same l ↔ ∀ x, l = .number x → x.isNaN = false := by
  constructor
  · rintro hl x rfl
    cases hl with
    | number hx => exact Decimal.beq_self_iff.1 hx
  · intro hl
    cases l with
    | null => exact .null
    | bool b => exact .bool b
    | number x => exact .number (Decimal.beq_self_iff.2 (hl x rfl))
    | string s => exact .string s
    | char c => exact .char c

namespace Datum

theorem same_scalar_iff {l m : Literal} : (scalar l).Same (scalar m) ↔ l.Same m := by
  constructor
  · rintro ⟨hlm⟩
    exact hlm
  · exact .scalar

theorem same_list_iff {items others : List Datum} :
    (list items).Same (list others) ↔ List.Forall₂ Same items others := by
  constructor
  · rintro ⟨⟩
    assumption
  · exact .list

theorem forall₂_trans {R : Datum → Datum → Prop} {ds es fs : List Datum}
    (hde : List.Forall₂ R ds es) (hef : List.Forall₂ R es fs)
    (htrans : ∀ d ∈ ds, ∀ e f, R d e → R e f → R d f) : List.Forall₂ R ds fs := by
  induction hde generalizing fs with
  | nil => exact hef
  | cons hfirst _ ih =>
    obtain ⟨f, fs, hfirst', hrest', rfl⟩ := List.forall₂_cons_left_iff.1 hef
    obtain ⟨htrans, htransRest⟩ := List.forall_mem_cons.1 htrans
    exact .cons (htrans _ f hfirst hfirst') (ih hrest' htransRest)

theorem Same.trans {d e f : Datum} (hde : d.Same e) (hef : e.Same f) : d.Same f := by
  induction d generalizing e f with
  | scalar l =>
    cases hde with
    | scalar hlm =>
      cases hef with
      | scalar hmn => exact .scalar (hlm.trans hmn)
  | list items ih =>
    cases hde with
    | list hitems =>
      cases hef with
      | list hothers => exact .list (forall₂_trans hitems hothers fun d hd e f => ih d hd)

theorem hasLeaf_list_iff {l : Literal} {items : List Datum} :
    (list items).HasLeaf l ↔ ∃ d ∈ items, d.HasLeaf l := by
  constructor
  · rintro ⟨⟩
    exact ⟨_, ‹_›, ‹_›⟩
  · rintro ⟨d, hmem, hd⟩
    exact .inside hmem hd

/-- **A datum equals itself exactly if all numbers in it are numbers.** -/
theorem same_self_iff {d : Datum} : d.Same d ↔ ∀ x, d.HasLeaf (.number x) → x.isNaN = false := by
  induction d with
  | scalar l =>
    rw [same_scalar_iff, Literal.same_self_iff]
    constructor
    · rintro hl x ⟨⟩
      exact hl x rfl
    · rintro hl x rfl
      exact hl x .here
  | list items ih =>
    rw [same_list_iff, List.forall₂_same]
    constructor
    · intro hitems x hx
      obtain ⟨d, hmem, hd⟩ := hasLeaf_list_iff.1 hx
      exact (ih d hmem).1 (hitems d hmem) x hd
    · intro hleaves d hmem
      exact (ih d hmem).2 fun x hx => hleaves x (.inside hmem hx)

end Datum

/-! ## Constants and arrays -/

namespace Value

theorem sameScalar_ofLiteral_iff {l m : Literal} :
    (ofLiteral l).sameScalar (ofLiteral m) = true ↔ l.Same m := by
  constructor
  · intro h
    cases l <;> cases m <;> simp only [ofLiteral, sameScalar, Bool.false_eq_true] at h
    · exact .null
    · exact eq_of_beq h ▸ .bool _
    · exact .number h
    · exact eq_of_beq h ▸ .string _
    · exact eq_of_beq h ▸ .char _
  · rintro (_ | b | hxy | s | c)
    · rfl
    · exact beq_self_eq_true b
    · exact hxy
    · exact beq_self_eq_true s
    · exact beq_self_eq_true c

theorem sameScalar_comm (a b : Value) : a.sameScalar b = b.sameScalar a := by
  cases a <;> cases b <;> simp only [sameScalar]
  · exact Bool.beq_comm
  · exact Decimal.beq_comm _ _
  · exact BEq.comm
  · exact BEq.comm

/-- Of two values one is a constant, or both refer to arrays. -/
theorem constant_or_arrays (a b : Value) :
    ((∃ l, a = ofLiteral l) ∨ ∃ m, b = ofLiteral m) ∨ ∃ p q, a = array p ∧ b = array q := by
  rcases a.ofLiteral_or_array with ha | ⟨p, rfl⟩
  · exact .inl (.inl ha)
  · rcases b.ofLiteral_or_array with hb | ⟨q, rfl⟩
    · exact .inl (.inr hb)
    · exact .inr ⟨p, q, rfl, rfl⟩

end Value

/-! ## Comparing -/

namespace Heap

variable {h : Heap} {n : Nat} {a b : Value}

theorem equal_of_constant (hconstant : (∃ l, a = .ofLiteral l) ∨ ∃ m, b = .ofLiteral m) :
    h.equal (n + 1) a b = some (a.sameScalar b) := by
  rcases hconstant with ⟨l, rfl⟩ | ⟨m, rfl⟩
  · cases l <;> rfl
  · cases a <;> cases m <;> rfl

theorem allEqual_comm {same : Value → Value → Option Bool} (hsame : ∀ a b, same a b = same b a)
    (as bs : List Value) : allEqual same as bs = allEqual same bs as := by
  induction as generalizing bs with
  | nil => cases bs <;> rfl
  | cons a as ih =>
    cases bs with
    | nil => rfl
    | cons b bs => rw [allEqual, allEqual, hsame a b, ih]

/-- **The order of two values does not matter**, whether they are equal, different, or nested too
deeply to tell. -/
theorem equal_comm (n : Nat) (a b : Value) : h.equal n a b = h.equal n b a := by
  induction n generalizing a b with
  | zero => rw [equal, equal]
  | succ n ih =>
    rcases a.constant_or_arrays b with hconstant | ⟨p, q, rfl, rfl⟩
    · rw [equal_of_constant hconstant, equal_of_constant hconstant.symm, Value.sameScalar_comm]
    · rw [equal, equal, allEqual_comm ih]
      simp only [eq_comm]

theorem allEqual_eq_true_iff {same : Value → Value → Option Bool} {as bs : List Value}
    (hlength : as.length = bs.length) : allEqual same as bs = some true ↔
      List.Forall₂ (fun a b => same a b = some true) as bs := by
  induction as generalizing bs with
  | nil =>
    obtain rfl := List.length_eq_zero_iff.1 hlength.symm
    exact ⟨fun _ => .nil, fun _ => rfl⟩
  | cons a as ih =>
    obtain ⟨b, bs, rfl⟩ := List.exists_cons_of_length_eq_add_one hlength.symm
    rw [List.forall₂_cons, ← ih (Nat.succ.inj hlength), allEqual]
    split
    · next hab => rw [hab, and_iff_right rfl]
    · next hab => exact ⟨fun h => absurd h hab, fun h => absurd h.1 hab⟩

theorem equal_array_eq_true_iff {p q : Nat} : h.equal (n + 1) (.array p) (.array q) = some true ↔
    List.Forall₂ (fun a b => h.equal n a b = some true) (h.elements p) (h.elements q) := by
  rw [equal]
  split
  · next hlength => exact allEqual_eq_true_iff hlength
  · next hlength => exact ⟨nofun, fun hall => absurd hall.length_eq hlength⟩

theorem forall₂_exists_iff {α β : Type} {f : α → Option β} {S : β → β → Prop} {xs ys : List α} :
    List.Forall₂ (fun x y => ∃ d e, f x = some d ∧ f y = some e ∧ S d e) xs ys ↔
      ∃ ds es, xs.mapM f = some ds ∧ ys.mapM f = some es ∧ List.Forall₂ S ds es := by
  simp only [mapM_eq_some_iff]
  constructor
  · intro hall
    induction hall with
    | nil => exact ⟨[], [], .nil, .nil, .nil⟩
    | cons hfirst _ ih =>
      obtain ⟨d, e, hd, he, hde⟩ := hfirst
      obtain ⟨ds, es, hds, hes, hall⟩ := ih
      exact ⟨d :: ds, e :: es, .cons hd hds, .cons he hes, .cons hde hall⟩
  · rintro ⟨ds, es, hds, hes, hall⟩
    induction hall generalizing xs ys with
    | nil =>
      rw [List.forall₂_nil_right_iff.1 hds, List.forall₂_nil_right_iff.1 hes]
      exact .nil
    | cons hde _ ih =>
      obtain ⟨x, xs, hd, hds', rfl⟩ := List.forall₂_cons_right_iff.1 hds
      obtain ⟨y, ys, he, hes', rfl⟩ := List.forall₂_cons_right_iff.1 hes
      exact .cons ⟨_, _, hd, he, hde⟩ (ih hds' hes')

/-- A constant is equal to a constant or to nothing. -/
theorem equal_constant_eq_true_iff (hconstant : (∃ l, a = .ofLiteral l) ∨ ∃ m, b = .ofLiteral m) :
    h.equal (n + 1) a b = some true ↔
      ∃ d e, h.unfolding? (n + 1) a = some d ∧ h.unfolding? (n + 1) b = some e ∧ d.Same e := by
  have hlist {p : Nat} {d : Datum} (hd : h.unfolding? (n + 1) (.array p) = some d) :
      ∃ items, d = .list items :=
    (unfolds_array_iff.1 (unfolding?_eq_some_iff.1 hd).1).imp fun _ => And.left
  have hscalar {l : Literal} {d : Datum} (hd : h.unfolding? (n + 1) (.ofLiteral l) = some d) :
      d = .scalar l :=
    Option.some.inj (hd.symm.trans (unfolding?_ofLiteral n l))
  rw [equal_of_constant hconstant, Option.some.injEq]
  rcases a.ofLiteral_or_array with ⟨l, rfl⟩ | ⟨p, rfl⟩
  · rcases b.ofLiteral_or_array with ⟨m, rfl⟩ | ⟨q, rfl⟩
    · simp [unfolding?_ofLiteral, Value.sameScalar_ofLiteral_iff, Datum.same_scalar_iff]
    · refine iff_of_false (by cases l <;> exact Bool.false_ne_true) ?_
      rintro ⟨d, e, hd, he, hsame⟩
      obtain rfl := hscalar hd
      obtain ⟨items, rfl⟩ := hlist he
      cases hsame
  · rcases hconstant with ⟨l, hl⟩ | ⟨m, rfl⟩
    · exact absurd hl.symm (Value.ofLiteral_ne_array l p)
    · refine iff_of_false (by cases m <;> exact Bool.false_ne_true) ?_
      rintro ⟨d, e, hd, he, hsame⟩
      obtain ⟨items, rfl⟩ := hlist hd
      obtain rfl := hscalar he
      cases hsame

/-- **Two values are equal exactly if they can be written out to equal data.** -/
theorem equal_eq_true_iff : h.equal n a b = some true ↔
    ∃ d e, h.unfolding? n a = some d ∧ h.unfolding? n b = some e ∧ d.Same e := by
  induction n generalizing a b with
  | zero => simp [equal, unfolding?]
  | succ n ih =>
    rcases a.constant_or_arrays b with hconstant | ⟨p, q, rfl, rfl⟩
    · exact equal_constant_eq_true_iff hconstant
    · simp only [equal_array_eq_true_iff, ih, forall₂_exists_iff]
      constructor
      · rintro ⟨ds, es, hds, hes, hsame⟩
        exact ⟨.list ds, .list es, by rw [unfolding?, hds]; rfl, by rw [unfolding?, hes]; rfl,
          .list hsame⟩
      · rintro ⟨d, e, hd, he, hsame⟩
        obtain ⟨ds, hds, rfl⟩ := Option.map_eq_some_iff.1 hd
        obtain ⟨es, hes, rfl⟩ := Option.map_eq_some_iff.1 he
        exact ⟨ds, es, hds, hes, Datum.same_list_iff.1 hsame⟩

theorem kindName_eq_of_same {d e : Datum} (hd : h.Unfolds a d) (he : h.Unfolds b e)
    (hsame : d.Same e) : a.kindName = b.kindName := by
  cases hsame with
  | scalar hlm =>
    cases hd with
    | scalar ha =>
      cases he with
      | scalar hb =>
        rw [ha, hb]
        cases hlm <;> rfl
  | list hitems =>
    cases hd with
    | array hitems =>
      cases he with
      | array hothers => rfl

end Heap

/-! ## Equality of values -/

namespace Machine

theorem compared_eq_true_iff [Limits] {h : Heap} {a b : Value} : compared h a b = .ok true ↔
    ∃ d e, (h.Unfolds a d ∧ d.height ≤ Limits.calls) ∧ (h.Unfolds b e ∧ e.height ≤ Limits.calls) ∧
      d.Same e := by
  simp only [← Heap.unfolding?_eq_some_iff, ← Heap.equal_eq_true_iff]
  rw [compared]
  cases h.equal Limits.calls a b <;> simp

/-- **Equality of values is a partial equivalence**, on every heap and for all values, also those
that cannot be written out.  Two values in either order are equal, different, or nested too deeply;
equality is transitive; a value equals itself exactly if it unfolds to a datum, no higher than the
bound, in which all numbers are numbers; and two values that are equal are of one kind and unfold to
data with the same shape and equal leaves. -/
theorem compared_partialEquivalence [Limits] (h : Heap) :
    (∀ a b, compared h a b = compared h b a) ∧
    (∀ a b c, compared h a b = .ok true → compared h b c = .ok true → compared h a c = .ok true) ∧
    (∀ a, compared h a a = .ok true ↔
      ∃ d, h.Unfolds a d ∧ d.height ≤ Limits.calls ∧
        ∀ x, d.HasLeaf (.number x) → x.isNaN = false) ∧
    ∀ a b, compared h a b = .ok true → a.kindName = b.kindName ∧
      ∃ d e, h.Unfolds a d ∧ h.Unfolds b e ∧ d.Same e := by
  refine ⟨fun a b => ?_, fun a b c hab hbc => ?_, fun a => ?_, fun a b hab => ?_⟩
  · rw [compared, compared, Heap.equal_comm]
  · obtain ⟨d, e, hd, he, hde⟩ := compared_eq_true_iff.1 hab
    obtain ⟨e', f, he', hf, hef⟩ := compared_eq_true_iff.1 hbc
    obtain rfl := he.1.unique he'.1
    exact compared_eq_true_iff.2 ⟨d, f, hd, hf, hde.trans hef⟩
  · rw [compared_eq_true_iff]
    constructor
    · rintro ⟨d, e, ⟨hd, hle⟩, ⟨he, -⟩, hde⟩
      obtain rfl := hd.unique he
      exact ⟨d, hd, hle, Datum.same_self_iff.1 hde⟩
    · rintro ⟨d, hd, hle, hnumbers⟩
      exact ⟨d, d, ⟨hd, hle⟩, ⟨hd, hle⟩, Datum.same_self_iff.2 hnumbers⟩
  · obtain ⟨d, e, ⟨hd, -⟩, ⟨he, -⟩, hde⟩ := compared_eq_true_iff.1 hab
    exact ⟨Heap.kindName_eq_of_same hd he hde, d, e, hd, he, hde⟩

/-- Two arrays with equal elements are equal, each to itself and to the other.  An array that
contains itself does not equal itself, and neither does one that contains what is not a number. -/
theorem compared_partialEquivalence_elements :
    let _ : Limits := ⟨20, 20⟩
    let h : Heap := ⟨#[[.string "s", .array 2], [.string "s", .array 3], [], [], [.array 4],
      [.number (0 / 0)]]⟩
    compared h (.array 0) (.array 1) = .ok true ∧ compared h (.array 1) (.array 0) = .ok true ∧
    compared h (.array 0) (.array 0) = .ok true ∧
    compared h (.array 4) (.array 4) ≠ .ok true ∧ compared h (.array 5) (.array 5) ≠ .ok true := by
  intro limits h
  obtain ⟨hcomm, htrans, hself, -⟩ := compared_partialEquivalence h
  have hequal : compared h (.array 0) (.array 1) = .ok true := rfl
  have hback : compared h (.array 1) (.array 0) = .ok true := (hcomm _ _).trans hequal
  refine ⟨hequal, hback, htrans _ _ _ hequal hback, ?_, ?_⟩
  · rw [Ne, hself]
    rintro ⟨d, hd, -⟩
    exact hd.not_cyclic (.single List.mem_cons_self)
  · rw [Ne, hself]
    rintro ⟨d, hd, -, hnumbers⟩
    have hitems : h.Unfolds (.array 5) (.list [.scalar (.number (0 / 0))]) :=
      .array (.cons (.scalar rfl) .nil)
    obtain rfl := hd.unique hitems
    exact absurd (hnumbers _ (.inside List.mem_cons_self .here)) (by decide)

end Machine

end Scriptlet
