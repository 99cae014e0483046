import Mathlib
import Scriptlet.Proofs.Grammar.Derivation

/-!
# The tables of the reader agree with the grammar

The reader finds operators in tables, goes from a level to the next one by a function, and takes the
value of a literal from its text.  The grammar says the same by rules of its own.  Here the two are
compared, and what follows works with either.

## What is here

* `joins_iff`, `signs_iff`, `Level.over_iff` — **the same operators and the same precedence**.
* `Numeral.ofPositional`, `unquoted_eq` — a literal that the grammar allows is read to its value.
* `Token.Lexical.numeral`, `Token.Lexical.string`, `Token.Lexical.char` — the literals of a text are
  literals of the grammar.
-/

set_option autoImplicit false
namespace Scriptlet

namespace Grammar

/-! ## Operators -/

theorem joins_iff {level : Level} {kind : TokenKind} {op : BinaryOp} :
    Joins level kind op ↔ level.operator? kind = some op := by
  constructor
  · intro h
    cases h <;> rfl
  · intro h
    rw [Level.operator?.eq_def] at h
    split at h <;> cases h <;> constructor

theorem signs_iff {kind : TokenKind} {op : UnaryOp} :
    Signs kind op ↔ signOperator? kind = some op := by
  constructor
  · intro h
    cases h <;> rfl
  · intro h
    rw [signOperator?.eq_def] at h
    split at h <;> cases h <;> constructor

/-- The levels whose expressions are operands with operators between them. -/
def Level.binary : List Level :=
  [.disjunction, .conjunction, .equality, .comparison, .sum, .product]

theorem Level.mem_binary {level : Level} (h1 : level ≠ .whole) (h2 : level ≠ .signed)
    (h3 : level ≠ .primary) : level ∈ Level.binary := by
  cases level <;> first | contradiction | decide

theorem Level.over_iff {level tighter : Level} :
    level.Over tighter ↔ level ∈ Level.binary ∧ level.tighter = tighter := by
  constructor
  · intro h
    cases h <;> exact ⟨by simp [Level.binary], rfl⟩
  · rintro ⟨h, rfl⟩
    simp only [Level.binary, List.mem_cons, List.not_mem_nil, or_false] at h
    rcases h with rfl | rfl | rfl | rfl | rfl | rfl <;> constructor

/-- Only a level of binary operators has an operator. -/
theorem Level.over_of_operator {level : Level} {kind : TokenKind} {op : BinaryOp}
    (h : level.operator? kind = some op) : level.Over level.tighter := by
  have hjoins := joins_iff.2 h
  cases hjoins <;> constructor

theorem Level.operator?_endOfText (level : Level) : level.operator? .endOfText = none := by
  cases level <;> rfl

theorem kind_ne_endOfText_of_operator {level : Level} {t : Token} {op : BinaryOp}
    (h : level.operator? t.kind = some op) : t.kind ≠ .endOfText := by
  intro hk
  rw [hk, level.operator?_endOfText] at h
  cases h

theorem kind_ne_endOfText_of_sign {t : Token} {op : UnaryOp} (h : signOperator? t.kind = some op) :
    t.kind ≠ .endOfText := by
  intro hk
  rw [hk] at h
  cases h

/-! ## Literals -/

theorem takeWhile_digits {ds : List Char} (h : ∀ d ∈ ds, DigitChar d) (rest : List Char)
    (hrest : rest.head?.all (!·.isDigit) = true) :
    (ds ++ rest).takeWhile Char.isDigit = ds ∧ (ds ++ rest).dropWhile Char.isDigit = rest := by
  have hall : ∀ d ∈ ds, d.isDigit = true := fun d hd => isDigit_iff.2 (h d hd)
  rw [List.takeWhile_append_of_pos hall, List.dropWhile_append_of_pos hall]
  cases rest with
  | nil => simp
  | cons c cs =>
    have hc : ¬ c.isDigit = true := by simpa using hrest
    simp [hc]

/-- The reader gives a numeral its value. -/
theorem Numeral.ofPositional {text : List Char} {x : Float} (h : Numeral text x) :
    Decimal.ofPositional text = x := by
  cases h with
  | whole hne hds =>
    obtain ⟨htake, hdrop⟩ := takeWhile_digits hds [] rfl
    rw [List.append_nil] at htake hdrop
    simp [Decimal.ofPositional, Decimal.unsigned?, Decimal.exponent?, htake, hdrop, hne]
  | @fraction ds es hne hds hne' hes =>
    obtain ⟨htake, hdrop⟩ := takeWhile_digits hds ('.' :: es) rfl
    obtain ⟨htake', hdrop'⟩ := takeWhile_digits hes [] rfl
    rw [List.append_nil] at htake' hdrop'
    simp [Decimal.ofPositional, Decimal.unsigned?, Decimal.exponent?, htake, hdrop, htake', hdrop',
      hne]

/-- What stands between the quotes. -/
theorem unquoted_eq {lexeme : String} {text : List Char} {q q' : Char}
    (h : lexeme.toList = q :: (text ++ [q'])) : unquoted lexeme = text := by
  rw [unquoted, h, List.tail_cons, List.dropLast_concat]

theorem numeral_of_lexeme {text : List Char} (h : Lexeme (.token .number) text) :
    Numeral text (Decimal.ofPositional text) := by
  have hnumeral : ∃ x, Numeral text x := by
    cases h with
    | whole hne hds => exact ⟨_, .whole hne hds⟩
    | fraction hne hds hne' hes => exact ⟨_, .fraction hne hds hne' hes⟩
    | keyword hmem => exact absurd hmem (by simp [keywords])
    | symbol hmem => exact absurd hmem (by simp [symbols])
  obtain ⟨x, hx⟩ := hnumeral
  rwa [hx.ofPositional]

theorem string_of_lexeme {text : List Char} (h : Lexeme (.token .string) text) :
    ∃ body, text = '"' :: (body ++ ['"']) := by
  cases h with
  | @string body _ => exact ⟨body, rfl⟩
  | keyword hmem => exact absurd hmem (by simp [keywords])
  | symbol hmem => exact absurd hmem (by simp [symbols])

theorem char_of_lexeme {text : List Char} (h : Lexeme (.token .char) text) :
    ∃ c, text = ['\'', c, '\''] := by
  cases h with
  | @char c _ => exact ⟨c, rfl⟩
  | keyword hmem => exact absurd hmem (by simp [keywords])
  | symbol hmem => exact absurd hmem (by simp [symbols])

end Grammar

namespace Token.Lexical

open Grammar

variable {t : Token}

theorem numeral (h : t.Lexical) (hk : t.kind = .number) :
    Numeral t.lexeme.toList (Decimal.ofPositional t.lexeme.toList) := by
  rw [Token.Lexical, hk] at h
  exact numeral_of_lexeme h

theorem string (h : t.Lexical) (hk : t.kind = .string) :
    t.lexeme.toList = '"' :: (unquoted t.lexeme ++ ['"']) := by
  rw [Token.Lexical, hk] at h
  obtain ⟨body, hbody⟩ := string_of_lexeme h
  rw [unquoted_eq hbody, hbody]

theorem char (h : t.Lexical) (hk : t.kind = .char) :
    t.lexeme.toList = ['\'', (unquoted t.lexeme).headD '\x00', '\''] := by
  rw [Token.Lexical, hk] at h
  obtain ⟨c, hc⟩ := char_of_lexeme h
  have hinner : unquoted t.lexeme = [c] := unquoted_eq hc
  rw [hinner, hc]
  rfl

end Token.Lexical

end Scriptlet
