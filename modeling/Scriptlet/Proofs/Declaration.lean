import Mathlib
import Scriptlet.Proofs.Events

/-!
# What the check of declarations says

A program that passes the check declares every name it mentions exactly once, and before it does
anything else with it.  That is a fact about the order in which the checker walks over the tree, not
about runs: a declaration inside a branch or a body counts, whether or not a run comes past it.  So
the declarations of a tree are listed here with the one bit that a run depends on.

## What is here

* `Stmt.declarations` — the declarations of a tree, each marked as *conditional* if it stands in a
  branch of a conditional or in the body of a loop.
* `eventsOf x` — the events of a tree that are about a name.
* `Disciplined x` — **the rule for one name**: nothing happens to it, or one declaration and then
  uses only.
* `disciplined_of_check` — what passing the check means for each name.
* `exists_declaration` — the one declaration of a name that a checked program mentions.
-/

set_option autoImplicit false
namespace Scriptlet

/-! ## The declarations of a tree -/

/-- A declaration in a tree: of which name, and whether it stands in a branch or a body. -/
structure Declaration where
  name : String
  conditional : Bool
  deriving DecidableEq, Repr

/-- The declaration in the first clause of a `for` loop, if it is one. -/
def ForInit.declarations (conditional : Bool) : ForInit → List Declaration
  | .declare b => [⟨b.name, conditional⟩]
  | .assign _ => []

mutual

/-- The declarations of a statement that itself is or is not conditional.  The first clause of a
`for` loop is no more conditional than the loop. -/
def Stmt.declarations (conditional : Bool) : Stmt → List Declaration
  | .declare b => [⟨b.name, conditional⟩]
  | .assign _ | .assignElement _ _ _ _ | .print _ _ => []
  | .block body _ => Stmt.declarationsAll conditional body
  | .ifThen _ body _ _ => Stmt.declarationsAll true body
  | .ifElse _ body _ otherwise _ _ =>
    Stmt.declarationsAll true body ++ Stmt.declarationsAll true otherwise
  | .whileLoop _ body _ _ => Stmt.declarationsAll true body
  | .forLoop clauses body _ _ =>
    (clauses.init.elim [] (ForInit.declarations conditional)) ++ Stmt.declarationsAll true body

/-- The declarations of some statements. -/
def Stmt.declarationsAll (conditional : Bool) : List Stmt → List Declaration
  | [] => []
  | s :: ss => s.declarations conditional ++ Stmt.declarationsAll conditional ss

end

/-! ## Events about one name -/

/-- The name that an event is about. -/
def Event.name : Event → String
  | .use name _ => name
  | .declare name _ => name

/-- Whether an event is a use. -/
def Event.isUse : Event → Bool
  | .use _ _ => true
  | .declare _ _ => false

/-- The name that an event declares. -/
def Event.declared? : Event → Option String
  | .use _ _ => none
  | .declare name _ => some name

theorem mem_declared? {name : String} {es : List Event} :
    name ∈ es.filterMap Event.declared? ↔ ∃ line, .declare name line ∈ es := by
  rw [List.mem_filterMap]
  constructor
  · rintro ⟨e, he, hname⟩
    cases e with
    | use => exact nomatch hname
    | declare n line => exact ⟨line, Option.some.inj hname ▸ he⟩
  · rintro ⟨line, he⟩
    exact ⟨_, he, rfl⟩

/-- The events about a name. -/
def eventsOf (x : String) (es : List Event) : List Event :=
  es.filter (·.name = x)

@[simp] theorem eventsOf_append (x : String) (es fs : List Event) :
    eventsOf x (es ++ fs) = eventsOf x es ++ eventsOf x fs :=
  List.filter_append es fs

theorem eventsOf_cons_of_eq {x : String} {e : Event} (h : e.name = x) (es : List Event) :
    eventsOf x (e :: es) = e :: eventsOf x es :=
  List.filter_cons_of_pos (by simpa using h)

theorem eventsOf_cons_of_ne {x : String} {e : Event} (h : e.name ≠ x) (es : List Event) :
    eventsOf x (e :: es) = eventsOf x es :=
  List.filter_cons_of_neg (by simpa using h)

theorem mem_eventsOf {x : String} {e : Event} {es : List Event} :
    e ∈ eventsOf x es ↔ e ∈ es ∧ e.name = x := by
  simp [eventsOf]

/-- **The rule for one name**: either there is no event about it, or the first one is a declaration
and all others are uses. -/
def Disciplined (x : String) (es : List Event) : Prop :=
  eventsOf x es = [] ∨
    ∃ line uses, eventsOf x es = .declare x line :: uses ∧ ∀ e ∈ uses, e.isUse = true

namespace Disciplined

variable {x : String} {es fs : List Event}

theorem left (h : Disciplined x (es ++ fs)) : Disciplined x es := by
  rw [Disciplined, eventsOf_append] at h
  rcases h with h | ⟨line, uses, h, huses⟩
  · exact .inl (List.append_eq_nil_iff.1 h).1
  · cases hes : eventsOf x es with
    | nil => exact .inl hes
    | cons e rest =>
      rw [hes, List.cons_append, List.cons.injEq] at h
      obtain ⟨rfl, rfl⟩ := h
      exact .inr ⟨line, rest, hes, fun e he => huses e (List.mem_append_left _ he)⟩

/-- Before a declaration there is no event about the name. -/
theorem eventsOf_left {line : Int} (h : Disciplined x (es ++ fs)) (hd : .declare x line ∈ fs) :
    eventsOf x es = [] := by
  have hmem : Event.declare x line ∈ eventsOf x fs := mem_eventsOf.2 ⟨hd, rfl⟩
  rw [Disciplined, eventsOf_append] at h
  rcases h with h | ⟨line', uses, h, huses⟩
  · exact (List.append_eq_nil_iff.1 h).1
  · cases hes : eventsOf x es with
    | nil => rfl
    | cons e rest =>
      rw [hes, List.cons_append, List.cons.injEq] at h
      have := huses _ (h.2 ▸ List.mem_append_right rest hmem)
      exact absurd this (by simp [Event.isUse])

theorem right {line : Int} (h : Disciplined x (es ++ fs)) (hd : .declare x line ∈ fs) :
    Disciplined x fs := by
  have hnil := h.eventsOf_left hd
  rwa [Disciplined, eventsOf_append, hnil, List.nil_append] at h

end Disciplined

/-! ## Passing the check -/

namespace Scope

/-- Violations are never taken back. -/
theorem violations_foldl_observe (s : Scope) (es : List Event) :
    ∃ vs, (es.foldl observe s).violations = s.violations ++ vs := by
  induction es generalizing s with
  | nil => exact ⟨#[], by simp⟩
  | cons e es ih =>
    obtain ⟨vs, hvs⟩ := ih (s.observe e)
    have hstep : ∃ ws, (s.observe e).violations = s.violations ++ ws := by
      cases e with
      | use name line =>
        rw [observe]
        split
        · exact ⟨#[], by simp⟩
        · exact ⟨#[.usedBeforeDeclaration name line], by simp⟩
      | declare name line =>
        rw [observe]
        split
        · exact ⟨#[.alreadyDeclared name line], by simp⟩
        · exact ⟨#[], by simp⟩
    obtain ⟨ws, hws⟩ := hstep
    exact ⟨ws ++ vs, by rw [List.foldl_cons, hvs, hws, Array.append_assoc]⟩

/-- An event that is no violation: a use of a declared name, or a declaration of another one. -/
theorem observe_of_violations_eq {s : Scope} {e : Event}
    (h : (s.observe e).violations = #[]) :
    (∃ name line, e = .use name line ∧ name ∈ s.declared ∧ s.observe e = s) ∨
      ∃ name line, e = .declare name line ∧ name ∉ s.declared ∧
        (s.observe e).declared = s.declared ++ [name] := by
  cases e with
  | use name line =>
    by_cases hn : name ∈ s.declared
    · exact .inl ⟨name, line, rfl, hn, by simp [observe, hn]⟩
    · simp [observe, hn] at h
  | declare name line =>
    by_cases hn : name ∈ s.declared
    · simp [observe, hn] at h
    · exact .inr ⟨name, line, rfl, hn, by simp [observe, hn]⟩

/-- Without violations, the events about a declared name are uses, and any other name is treated as
the rule has it. -/
theorem disciplined_of_foldl_observe {x : String} {es : List Event} {s : Scope}
    (h : (es.foldl observe s).violations = #[]) :
    (x ∈ s.declared → ∀ e ∈ eventsOf x es, e.isUse = true) ∧
      (x ∉ s.declared → Disciplined x es) := by
  induction es generalizing s with
  | nil => exact ⟨fun _ e he => absurd he List.not_mem_nil, fun _ => .inl rfl⟩
  | cons e es ih =>
    rw [List.foldl_cons] at h
    have hstep : (s.observe e).violations = #[] := by
      obtain ⟨vs, hvs⟩ := violations_foldl_observe (s.observe e) es
      rw [h] at hvs
      exact (Array.append_eq_empty_iff.1 hvs.symm).1
    obtain ⟨ihuses, ihrule⟩ := ih h
    rcases observe_of_violations_eq hstep with
      ⟨name, line, rfl, hn, hsame⟩ | ⟨name, line, rfl, hn, hmore⟩
    · rw [hsame] at ihuses ihrule
      refine ⟨fun hx e he => ?_, fun hx => ?_⟩
      · rcases List.mem_cons.1 (mem_eventsOf.1 he).1 with rfl | hmem
        · rfl
        · exact ihuses hx e (mem_eventsOf.2 ⟨hmem, (mem_eventsOf.1 he).2⟩)
      · have hne : name ≠ x := fun heq => hx (heq ▸ hn)
        rw [Disciplined, eventsOf_cons_of_ne (e := .use name line) hne]
        exact ihrule hx
    · rw [hmore, List.mem_append, List.mem_singleton] at ihuses ihrule
      refine ⟨fun hx => ?_, fun hx => ?_⟩
      · have hne : name ≠ x := fun heq => hn (heq ▸ hx)
        rw [eventsOf_cons_of_ne (e := .declare name line) hne]
        exact ihuses (.inl hx)
      · by_cases heq : name = x
        · subst heq
          exact .inr ⟨line, eventsOf name es, eventsOf_cons_of_eq rfl es, ihuses (.inr rfl)⟩
        · rw [Disciplined, eventsOf_cons_of_ne (e := .declare name line) heq]
          exact ihrule (not_or.2 ⟨hx, fun h => heq h.symm⟩)

end Scope

/-- **In a program that passes the check every name is treated as the rule has it.** -/
theorem disciplined_of_check {program : List Stmt}
    (h : (Scope.check {} program).violations = #[]) (x : String) :
    Disciplined x (Stmt.eventsAll program) := by
  rw [Scope.check_eq_foldl] at h
  exact (Scope.disciplined_of_foldl_observe h).2 List.not_mem_nil

/-! ## Declarations and events -/

mutual

/-- Expressions declare nothing. -/
theorem Expr.declared?_events : ∀ e : Expr, e.events.filterMap Event.declared? = []
  | .literal _ _ => rfl
  | .variable _ _ => rfl
  | .unary _ operand _ => operand.declared?_events
  | .binary left _ right _ => by
    rw [Expr.events, List.filterMap_append, left.declared?_events, right.declared?_events]
    rfl
  | .array elements _ => Expr.declared?_eventsAll elements
  | .element _ index _ => index.declared?_events

theorem Expr.declared?_eventsAll :
    ∀ es : List Expr, (Expr.eventsAll es).filterMap Event.declared? = []
  | [] => rfl
  | e :: es => by
    rw [Expr.eventsAll, List.filterMap_append, e.declared?_events, Expr.declared?_eventsAll es]
    rfl

end

theorem Binding.declared?_declarationEvents (b : Binding) :
    b.declarationEvents.filterMap Event.declared? = [b.name] := by
  rw [Binding.declarationEvents, List.filterMap_append, b.value.declared?_events]
  rfl

theorem Binding.declared?_assignmentEvents (b : Binding) :
    b.assignmentEvents.filterMap Event.declared? = [] :=
  b.value.declared?_events

theorem ForInit.declared?_events (i : ForInit) (conditional : Bool) :
    i.events.filterMap Event.declared? = (i.declarations conditional).map Declaration.name := by
  cases i with
  | declare b => exact b.declared?_declarationEvents
  | assign b => exact b.declared?_assignmentEvents

theorem ForClauses.declared?_events (c : ForClauses) (conditional : Bool) :
    c.events.filterMap Event.declared? =
      (c.init.elim [] (ForInit.declarations conditional)).map Declaration.name := by
  have hcondition : (optionalEvents Expr.events c.condition).filterMap Event.declared? = [] := by
    cases c.condition with
    | none => rfl
    | some e => exact e.declared?_events
  have hincrement :
      (optionalEvents Binding.assignmentEvents c.increment).filterMap Event.declared? = [] := by
    cases c.increment with
    | none => rfl
    | some b => exact b.declared?_assignmentEvents
  rw [ForClauses.events, List.filterMap_append, List.filterMap_append, hcondition, hincrement,
    List.append_nil, List.append_nil]
  cases c.init with
  | none => rfl
  | some i => exact i.declared?_events conditional

mutual

/-- The names declared by the events of a statement are those of its declarations, in order. -/
theorem Stmt.declared?_events (conditional : Bool) : ∀ s : Stmt,
    s.events.filterMap Event.declared? = (s.declarations conditional).map Declaration.name
  | .declare b => b.declared?_declarationEvents
  | .assign b => b.declared?_assignmentEvents
  | .assignElement _ index value _ => by
    rw [Stmt.events, List.filterMap_cons, Event.declared?, List.filterMap_append,
      index.declared?_events, value.declared?_events]
    rfl
  | .print value _ => value.declared?_events
  | .block body _ => Stmt.declared?_eventsAll conditional body
  | .ifThen condition body _ _ => by
    rw [Stmt.events, List.filterMap_append, condition.declared?_events,
      Stmt.declared?_eventsAll true body]
    rfl
  | .ifElse condition body _ otherwise _ _ => by
    rw [Stmt.events, List.filterMap_append, List.filterMap_append, condition.declared?_events,
      Stmt.declared?_eventsAll true body, Stmt.declared?_eventsAll true otherwise,
      Stmt.declarations, List.map_append]
    rfl
  | .whileLoop condition body _ _ => by
    rw [Stmt.events, List.filterMap_append, condition.declared?_events,
      Stmt.declared?_eventsAll true body]
    rfl
  | .forLoop clauses body _ _ => by
    rw [Stmt.events, List.filterMap_append, clauses.declared?_events conditional,
      Stmt.declared?_eventsAll true body, Stmt.declarations, List.map_append]

theorem Stmt.declared?_eventsAll (conditional : Bool) : ∀ ss : List Stmt,
    (Stmt.eventsAll ss).filterMap Event.declared? =
      (Stmt.declarationsAll conditional ss).map Declaration.name
  | [] => rfl
  | s :: ss => by
    rw [Stmt.eventsAll, List.filterMap_append, s.declared?_events conditional,
      Stmt.declared?_eventsAll conditional ss, Stmt.declarationsAll, List.map_append]

end

/-- A declaration of a statement list is one of its events. -/
theorem Stmt.exists_declare_mem {x : String} {conditional c : Bool} {ss : List Stmt}
    (h : ⟨x, c⟩ ∈ Stmt.declarationsAll conditional ss) :
    ∃ line, Event.declare x line ∈ Stmt.eventsAll ss := by
  rw [← mem_declared?, Stmt.declared?_eventsAll conditional]
  exact List.mem_map_of_mem h

/-- The declarations of a name come from the events about it. -/
theorem declared?_eventsOf (x : String) (es : List Event) :
    (eventsOf x es).filterMap Event.declared? = (es.filterMap Event.declared?).filter (· = x) := by
  induction es with
  | nil => rfl
  | cons e es ih =>
    cases e with
    | use name line =>
      by_cases hn : name = x
      · rw [eventsOf_cons_of_eq (e := .use name line) hn]
        exact ih
      · rw [eventsOf_cons_of_ne (e := .use name line) hn]
        exact ih
    | declare name line =>
      by_cases hn : name = x
      · rw [eventsOf_cons_of_eq (e := .declare name line) hn]
        simp [Event.declared?, hn, ih]
      · rw [eventsOf_cons_of_ne (e := .declare name line) hn]
        simp [Event.declared?, hn, ih]

/-- **A checked program declares a name that it mentions exactly once.** -/
theorem exists_declaration {program : List Stmt} (h : (Scope.check {} program).violations = #[])
    {x : String} (hx : eventsOf x (Stmt.eventsAll program) ≠ []) :
    ∃ conditional,
      (Stmt.declarationsAll false program).filter (·.name = x) = [⟨x, conditional⟩] := by
  rcases disciplined_of_check h x with hnil | ⟨line, uses, hevents, huses⟩
  · exact absurd hnil hx
  have hnone : uses.filterMap Event.declared? = [] := by
    rw [List.filterMap_eq_nil_iff]
    intro e he
    have := huses e he
    cases e with
    | use name line => rfl
    | declare name line => exact nomatch this
  have hnames : ((Stmt.declarationsAll false program).filter (·.name = x)).map Declaration.name
      = [x] := by
    calc ((Stmt.declarationsAll false program).filter (·.name = x)).map Declaration.name
        = ((Stmt.declarationsAll false program).map Declaration.name).filter (· = x) := by
          rw [List.filter_map]
          rfl
      _ = (eventsOf x (Stmt.eventsAll program)).filterMap Event.declared? := by
          rw [declared?_eventsOf, Stmt.declared?_eventsAll false]
      _ = [x] := by
          rw [hevents, List.filterMap_cons, hnone]
          rfl
  obtain ⟨⟨name, conditional⟩, hd, hname⟩ := List.map_eq_singleton_iff.1 hnames
  obtain rfl : name = x := hname
  exact ⟨conditional, hd⟩

end Scriptlet
