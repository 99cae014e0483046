import Scriptlet.Proofs.Declaration

/-!
# Which events are violations

The checker decides about each event on the spot, from the names it has in its scope.  Said about a
whole sequence of events, without a scope: a use is a violation if no declaration of its name stands
before it, and a declaration is one if another declaration of its name does.  The checker reports
these, each once and in order, and no others, however many programs it is given one after the other.

* `Event.violation?` — the violation that an event is after some others.
* `violationsAmong` — all the violations of a sequence of events.
* `Scope.Records s es` — **the scope after some events**, kept by one more event
  (`Scope.Records.observe`) and so by any number (`Scope.Records.foldl`).
* `violations_of_programs` — what the checker has found after some programs.
-/

set_option autoImplicit false
namespace Scriptlet

/-! ## Violations without a scope -/

/-- The violation that an event is, if some others stand before it: a use of a name that none of
them declares, or a declaration of a name that one of them declares. -/
def Event.violation? (before : List Event) : Event → Option Violation
  | .use name line =>
    if name ∈ before.filterMap Event.declared? then none
    else some (.usedBeforeDeclaration name line)
  | .declare name line =>
    if name ∈ before.filterMap Event.declared? then some (.alreadyDeclared name line)
    else none

/-- The violations among some events, in order: each event is judged by the ones before it. -/
def violationsAmong (es : List Event) : List Violation :=
  (List.range es.length).filterMap fun k => es[k]?.bind (Event.violation? (es.take k))

theorem violationsAmong_append_singleton (es : List Event) (e : Event) :
    violationsAmong (es ++ [e]) = violationsAmong es ++ (e.violation? es).toList := by
  have hbefore : ∀ k ∈ List.range es.length,
      ((es ++ [e])[k]?.bind (Event.violation? ((es ++ [e]).take k)))
        = es[k]?.bind (Event.violation? (es.take k)) := by
    intro k hk
    have hlt : k < es.length := List.mem_range.1 hk
    rw [List.getElem?_append_left hlt, List.take_append_of_le_length hlt.le]
  rw [violationsAmong, List.length_append, List.length_singleton, List.range_succ,
    List.filterMap_append, List.filterMap_congr hbefore, ← violationsAmong]
  congr 1
  cases h : e.violation? es <;> simp [h]

/-! ## The scope after some events -/

namespace Scope

theorem mem_declared_observe (s : Scope) (e : Event) (name : String) :
    name ∈ (s.observe e).declared ↔ name ∈ s.declared ∨ e.declared? = some name := by
  cases e with
  | use n line => by_cases hn : n ∈ s.declared <;> simp [observe, hn, Event.declared?]
  | declare n line =>
    by_cases hn : n ∈ s.declared
    · have hobserve : (s.observe (.declare n line)).declared = s.declared := by simp [observe, hn]
      rw [hobserve, Event.declared?, Option.some.injEq]
      exact ⟨.inl, fun h => h.elim id fun hname => hname ▸ hn⟩
    · simp [observe, hn, Event.declared?, eq_comm]

theorem nodup_declared_observe {s : Scope} (h : s.declared.Nodup) (e : Event) :
    (s.observe e).declared.Nodup := by
  cases e with
  | use n line => by_cases hn : n ∈ s.declared <;> simpa [observe, hn] using h
  | declare n line =>
    by_cases hn : n ∈ s.declared
    · simpa [observe, hn] using h
    · have hobserve : (s.observe (.declare n line)).declared = s.declared ++ [n] := by
        simp [observe, hn]
      rw [hobserve, ← List.concat_eq_append]
      exact h.concat hn

/-- What an event adds to the violations of a scope that holds the names declared before it. -/
theorem violations_observe {s : Scope} {es : List Event}
    (h : ∀ name, name ∈ s.declared ↔ name ∈ es.filterMap Event.declared?) (e : Event) :
    (s.observe e).violations.toList = s.violations.toList ++ (e.violation? es).toList := by
  cases e with
  | use n line => by_cases hn : n ∈ s.declared <;> simp [observe, Event.violation?, ← h, hn]
  | declare n line => by_cases hn : n ∈ s.declared <;> simp [observe, Event.violation?, ← h, hn]

/-- What a scope holds after some events: the names that they declare, each once, and the violations
among them. -/
structure Records (s : Scope) (es : List Event) : Prop where
  declared : ∀ name, name ∈ s.declared ↔ name ∈ es.filterMap Event.declared?
  nodup : s.declared.Nodup
  violations : s.violations.toList = violationsAmong es

theorem Records.start : Records {} [] :=
  ⟨fun _ => Iff.rfl, List.nodup_nil, rfl⟩

variable {s : Scope} {es : List Event}

/-- One more event. -/
theorem Records.observe (h : s.Records es) (e : Event) : (s.observe e).Records (es ++ [e]) where
  declared name := by
    rw [mem_declared_observe, h.declared, List.filterMap_append, List.mem_append]
    cases hname : e.declared? <;> simp [hname, eq_comm]
  nodup := nodup_declared_observe h.nodup e
  violations := by
    rw [violations_observe h.declared, h.violations, violationsAmong_append_singleton]

/-- Any number of events. -/
theorem Records.foldl (h : s.Records es) (fs : List Event) :
    (fs.foldl Scope.observe s).Records (es ++ fs) := by
  induction fs generalizing s es with
  | nil => rwa [List.append_nil]
  | cons e fs ih =>
    rw [List.foldl_cons, List.append_cons]
    exact ih (h.observe e)

/-- Any number of programs, one after the other. -/
theorem Records.foldl_check (h : s.Records es) (programs : List (List Stmt)) :
    (programs.foldl check s).Records (es ++ programs.flatMap Stmt.eventsAll) := by
  induction programs generalizing s es with
  | nil => rwa [List.flatMap_nil, List.append_nil]
  | cons program rest ih =>
    rw [List.foldl_cons, List.flatMap_cons, ← List.append_assoc, check_eq_foldl]
    exact ih (h.foldl _)

theorem verdict_eq (s : Scope) :
    s.verdict = if s.violations.toList = [] then .ok () else .error s.violations.toList := by
  rw [verdict]
  congr 1
  simp

end Scope

theorem violationsMessage_eq_join (vs : List Violation) :
    violationsMessage vs = "Semantic errors:" ++ String.join (vs.map ("\n  - " ++ ·.message)) := by
  have hfold (text : String) : vs.foldl (fun text v => text ++ "\n  - " ++ v.message) text
      = text ++ String.join (vs.map ("\n  - " ++ ·.message)) := by
    induction vs generalizing text with
    | nil => simp
    | cons v vs ih => rw [List.foldl_cons, ih, List.map_cons, String.join_cons, String.append_assoc,
        String.append_assoc, String.append_assoc]
  exact hfold _

/-! ## What the checker finds -/

/-- **The checker finds the violations among the events of its programs, and nothing else.**  After
any number of programs, one after the other, its scope holds the violations of all of them in order,
and the names that they declare, each once.  Its verdict is an error exactly if there is a
violation, and the error lists them all, each in words of its own. -/
theorem violations_of_programs (programs : List (List Stmt)) :
    let events := programs.flatMap Stmt.eventsAll
    let scope := programs.foldl Scope.check {}
    scope.violations.toList = violationsAmong events ∧
    (∀ name, name ∈ scope.declared ↔ ∃ line, .declare name line ∈ events) ∧
    scope.declared.Nodup ∧
    scope.verdict =
      (if violationsAmong events = [] then .ok () else .error (violationsAmong events)) ∧
    violationsMessage (violationsAmong events) =
      "Semantic errors:" ++ String.join ((violationsAmong events).map ("\n  - " ++ ·.message)) := by
  intro events scope
  have hrecords : scope.Records events := Scope.Records.start.foldl_check programs
  refine ⟨hrecords.violations, fun name => ?_, hrecords.nodup, ?_, violationsMessage_eq_join _⟩
  · rw [hrecords.declared, mem_declared?]
  · rw [scope.verdict_eq, hrecords.violations]

-- `let x = x;`, and then a loop whose third clause uses what its body declares, and `let x = z;`
example :
    let first : List Stmt := [.declare ⟨"x", .variable "x" 1, 1⟩]
    let second : List Stmt := [.forLoop ⟨none, none, some ⟨"z", .variable "x" 2, 2⟩⟩
      [.declare ⟨"z", .literal .null 3, 3⟩] 2 2, .declare ⟨"x", .variable "z" 4, 4⟩]
    ([first, second].foldl Scope.check {}).violations =
      #[.usedBeforeDeclaration "x" 1, .usedBeforeDeclaration "z" 2, .alreadyDeclared "x" 4] := by
  decide

end Scriptlet
