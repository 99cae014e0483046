import Scriptlet.Proofs.Declaration
import Scriptlet.Proofs.Grammar.Soundness

/-!
# The names of a program are words

A name comes into a tree from one place only, an identifier among the tokens; and an identifier
comes from one class of texts, the words.  So whatever holds of all words holds of all names of a
program that was read from text.

* `isWordPart_of_tokenize` — the lexeme of an identifier is made of letters, digits and underscores.
* `Derives.names`, `Statements.names` — what holds of the lexemes of all identifiers holds of all
  names of the derived tree.
* `isWordPart_of_parse` — the names of a program that was read.
-/

set_option autoImplicit false
namespace Scriptlet

/-! ## Identifiers among tokens -/

/-- Of the classes of texts, only that of words has identifiers. -/
theorem isWordPart_of_lexeme {text : List Char} (h : Lexeme (.token .identifier) text) :
    ∀ c ∈ text, isWordPart c = true := by
  cases h with
  | keyword hmem => exact absurd hmem (by simp [keywords])
  | name hc hcs _ =>
    refine List.forall_mem_cons.2 ⟨isWordPart_iff.2 (.inl hc), fun d hd => isWordPart_iff.2 ?_⟩
    exact hcs d hd
  | symbol hmem => exact absurd hmem (by simp [symbols])

theorem isWordPart_of_tokenize {source : List Char} {tokens : TokenStream}
    (h : tokenize source = .ok tokens) {t : Token} (ht : t ∈ tokens.tokens)
    (hk : t.kind = .identifier) : ∀ c ∈ t.lexeme.toList, isWordPart c = true := by
  have hlexical := lexical_of_tokenize h t ht
  rw [Token.Lexical, hk] at hlexical
  exact isWordPart_of_lexeme hlexical

/-! ## Names of derived trees -/

/-- A property holds of the lexemes of all identifiers among some tokens. -/
def Identifiers (P : String → Prop) (ts : List Token) : Prop :=
  ∀ t ∈ ts, t.kind = .identifier → P t.lexeme

/-- A property holds of the names of some events. -/
def Names (P : String → Prop) (es : List Event) : Prop :=
  ∀ e ∈ es, P e.name

section Lists

variable {P : String → Prop}

@[simp] theorem identifiers_cons {t : Token} {ts : List Token} :
    Identifiers P (t :: ts) ↔ (t.kind = .identifier → P t.lexeme) ∧ Identifiers P ts :=
  List.forall_mem_cons

@[simp] theorem identifiers_append {ts us : List Token} :
    Identifiers P (ts ++ us) ↔ Identifiers P ts ∧ Identifiers P us :=
  List.forall_mem_append

@[simp] theorem names_nil : Names P [] :=
  fun _ h => absurd h List.not_mem_nil

@[simp] theorem names_cons {e : Event} {es : List Event} :
    Names P (e :: es) ↔ P e.name ∧ Names P es :=
  List.forall_mem_cons

@[simp] theorem names_append {es fs : List Event} :
    Names P (es ++ fs) ↔ Names P es ∧ Names P fs :=
  List.forall_mem_append

end Lists

namespace Grammar

variable {P : String → Prop} {n : Nat} {ts : List Token}

theorem Derives.names {level : Level} {e : Expr} (h : Derives level n ts e)
    (hts : Identifiers P ts) : Names P e.events := by
  refine @Derives.rec (fun _ _ ts e _ => Identifiers P ts → Names P e.events)
    (fun _ ts es _ => Identifiers P ts → Names P (Expr.eventsAll es))
    (fun _ ts es _ => Identifiers P ts → Names P (Expr.eventsAll es))
    ?whole ?operand ?binary ?unsigned ?sign ?number ?string ?char ?name ?element ?group ?array
    ?none ?first ?nil ?cons level n ts e h hts
  case whole => exact fun _ ih => ih
  case operand => exact fun _ _ ih => ih
  case binary =>
    intro level tighter n ts us left right operator op _ _ _ _ ihl ihr hts
    rw [identifiers_append, identifiers_cons] at hts
    exact names_append.2 ⟨ihl hts.1, ihr hts.2.2⟩
  case unsigned => exact fun _ ih => ih
  case sign => exact fun _ _ ih hts => ih (identifiers_cons.1 hts).2
  case number => exact fun _ _ _ => names_nil
  case string => exact fun _ _ _ => names_nil
  case char => exact fun _ _ _ => names_nil
  case name => exact fun hn hts => names_cons.2 ⟨(identifiers_cons.1 hts).1 hn, names_nil⟩
  case element =>
    intro n ts index name opening closing hn _ _ _ ih hts
    rw [identifiers_cons, identifiers_cons, identifiers_append] at hts
    exact names_cons.2 ⟨hts.1 hn, ih hts.2.2.1⟩
  case group =>
    intro n ts e opening closing _ _ _ ih hts
    rw [identifiers_cons, identifiers_append] at hts
    exact ih hts.2.1
  case array =>
    intro n ts es opening closing _ _ _ ih hts
    rw [identifiers_cons, identifiers_append] at hts
    exact ih hts.2.1
  case none => exact fun _ => names_nil
  case first =>
    intro n ts us e es _ _ ih ihs hts
    rw [identifiers_append] at hts
    exact names_append.2 ⟨ih hts.1, ihs hts.2⟩
  case nil => exact fun _ => names_nil
  case cons =>
    intro n ts us comma e es _ _ _ ih ihs hts
    rw [List.cons_append, identifiers_cons, identifiers_append] at hts
    exact names_append.2 ⟨ih hts.2.1, ihs hts.2.2⟩

theorem Binds.names {b : Binding} (h : Binds n ts b) (hts : Identifiers P ts) :
    P b.name ∧ Names P b.value.events := by
  obtain ⟨hn, -, h⟩ := h
  rw [identifiers_cons, identifiers_cons] at hts
  exact ⟨hts.1 hn, h.names hts.2.2⟩

theorem Binds.names_declaration {b : Binding} (h : Binds n ts b) (hts : Identifiers P ts) :
    Names P b.declarationEvents :=
  names_append.2 ⟨(h.names hts).2, names_cons.2 ⟨(h.names hts).1, names_nil⟩⟩

theorem Binds.names_assignment {b : Binding} (h : Binds n ts b) (hts : Identifiers P ts) :
    Names P b.assignmentEvents :=
  names_cons.2 (h.names hts)

theorem Initializes.names {i : ForInit} (h : Initializes n ts i) (hts : Identifiers P ts) :
    Names P i.events := by
  cases h with
  | declare _ h => exact h.names_declaration (identifiers_cons.1 hts).2
  | assign h => exact h.names_assignment hts

theorem Optionally.names {α : Type} {R : List Token → α → Prop} {events : α → List Event}
    {o : Option α} (h : Optionally R ts o)
    (hR : ∀ us a, R us a → Identifiers P us → Names P (events a)) (hts : Identifiers P ts) :
    Names P (optionalEvents events o) := by
  cases h with
  | missing => exact names_nil
  | present h => exact hR _ _ h hts

/-- **What holds of all identifiers holds of all names.** -/
theorem Statements.names {ss : List Stmt} (h : Statements n ts ss) (hts : Identifiers P ts) :
    Names P (Stmt.eventsAll ss) := by
  refine @Statements.rec (fun _ ts s _ => Identifiers P ts → Names P s.events)
    (fun _ ts body _ _ => Identifiers P ts → Names P (Stmt.eventsAll body))
    (fun _ ts ss _ => Identifiers P ts → Names P (Stmt.eventsAll ss))
    ?declare ?assign ?assignElement ?print ?block ?ifThen ?ifElse ?whileLoop ?forLoop
    ?braces ?nil ?cons n ts ss h hts
  case declare =>
    intro n ts b keyword semicolon _ h _ hts
    rw [identifiers_cons, identifiers_append] at hts
    exact h.names_declaration hts.2.1
  case assign =>
    intro n ts b semicolon h _ hts
    exact h.names_assignment (identifiers_append.1 hts).1
  case assignElement =>
    intro n ts us index value name opening closing equal semicolon hn _ hi _ _ hv _ hts
    simp only [identifiers_cons, identifiers_append] at hts
    obtain ⟨hname, -, hindex, -, -, hvalue, -⟩ := hts
    exact names_cons.2 ⟨hname hn, names_append.2 ⟨hi.names hindex, hv.names hvalue⟩⟩
  case print =>
    intro n ts value keyword opening closing semicolon _ _ h _ _ hts
    rw [identifiers_cons, identifiers_cons, identifiers_append] at hts
    exact h.names hts.2.2.1
  case block => exact fun _ ih => ih
  case ifThen =>
    intro n ts us condition body bodyLine keyword opening closing _ _ h _ _ ih hts
    simp only [identifiers_cons, identifiers_append] at hts
    exact names_append.2 ⟨h.names hts.2.2.1, ih hts.2.2.2.2⟩
  case ifElse =>
    intro n ts us vs condition body otherwise bodyLine otherwiseLine keyword opening closing
      separator _ _ h _ _ _ _ ih ih' hts
    simp only [identifiers_cons, identifiers_append] at hts
    obtain ⟨-, -, hcond, -, hbody, -, hotherwise⟩ := hts
    exact names_append.2 ⟨names_append.2 ⟨h.names hcond, ih hbody⟩, ih' hotherwise⟩
  case whileLoop =>
    intro n ts us condition body bodyLine keyword opening closing _ _ h _ _ ih hts
    simp only [identifiers_cons, identifiers_append] at hts
    exact names_append.2 ⟨h.names hts.2.2.1, ih hts.2.2.2.2⟩
  case forLoop =>
    intro n ts us vs ws clauses body bodyLine keyword opening semicolon semicolon' closing _ _
      hinit _ hcond _ hinc _ _ ih hts
    simp only [identifiers_cons, identifiers_append] at hts
    obtain ⟨-, -, hts, -, hus, -, hvs, -, hws⟩ := hts
    simp only [Stmt.events, ForClauses.events, names_append]
    exact ⟨⟨⟨hinit.names (fun _ _ h => h.names) hts, hcond.names (fun _ _ h => h.names) hus⟩,
      hinc.names (fun _ _ h => h.names_assignment) hvs⟩, ih hws⟩
  case braces =>
    intro n ts body opening closing _ _ _ ih hts
    rw [identifiers_cons, identifiers_append] at hts
    exact ih hts.2.1
  case nil => exact fun _ => names_nil
  case cons =>
    intro n ts us s ss _ _ ih ihs hts
    rw [identifiers_append] at hts
    exact names_append.2 ⟨ih hts.1, ihs hts.2⟩

end Grammar

/-- The names of a program that was read from text are made of letters, digits and underscores. -/
theorem isWordPart_of_parse [Limits] {source : List Char} {tokens : TokenStream}
    {program : List Stmt} (htokens : tokenize source = .ok tokens)
    (hparse : Grammar.parse tokens = .ok program) :
    Names (fun name => ∀ c ∈ name.toList, isWordPart c = true) (Stmt.eventsAll program) :=
  (Grammar.Statements.of_parse (lexical_of_tokenize htokens) hparse).names
    fun _ => isWordPart_of_tokenize htokens

end Scriptlet
