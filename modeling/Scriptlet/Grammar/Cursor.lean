import Scriptlet.Grammar.Expectation

/-!
# The cursor

Reading moves a cursor over a token stream.  The cursor knows how many tokens the stream has, how
many of them lie behind it, which lie ahead, and the end of the text; on the end it stays.  A parser
is an action on the cursor that returns a result or an error; after an error the cursor stays where
reading stopped.

* `peek`, `advance`, `accept?`, `eat` — the four elementary moves.
* `tokensAhead` — how many tokens lie ahead, a bound for every loop of the grammar.
-/

set_option autoImplicit false
namespace Scriptlet.Grammar

/-- A place in a token stream. -/
structure Cursor where
  size : Nat
  position : Nat
  ahead : List Token
  last : Token
  deriving Repr

namespace Cursor

/-- The start of a token stream. -/
def start (s : TokenStream) : Cursor :=
  ⟨s.tokens.length, 0, s.tokens, s.endToken⟩

/-- The token under the cursor. -/
def current (c : Cursor) : Token :=
  c.ahead.headD c.last

/-- Whether the cursor has reached the end. -/
def atEnd (c : Cursor) : Bool :=
  c.ahead.isEmpty

/-- The cursor one token further; at the end it stays. -/
def next (c : Cursor) : Cursor :=
  match c.ahead with
  | [] => c
  | _ :: rest => { c with position := c.position + 1, ahead := rest }

end Cursor

/-- Actions on the cursor. -/
abbrev Parser := EStateM Error Cursor

/-- The token under the cursor. -/
def peek : Parser Token :=
  return (← get).current

/-- Moves over the token under the cursor and returns it. -/
def advance : Parser Token := do
  let c ← get
  set c.next
  return c.current

/-- Stops with a fault at the token under the cursor. -/
def stop {α : Type} (fault : Fault) : Parser α := do
  throw ⟨fault, ← peek⟩

/-- Whether the token under the cursor has a kind. -/
def check (kind : TokenKind) : Parser Bool :=
  return (← peek).kind = kind

/-- Whether the cursor has reached the end. -/
def atEnd : Parser Bool :=
  return (← get).atEnd

/-- Moves over the token under the cursor if it is of one of some kinds. -/
def accept? (kinds : List TokenKind) : Parser (Option Token) := do
  if kinds.contains (← peek).kind then
    return some (← advance)
  else
    return none

/-- Moves over a token of a kind, or stops with an unmet expectation. -/
def eat (kind : TokenKind) (expectation : Expectation) : Parser Token := do
  if (← peek).kind = kind then advance else stop (.unmet expectation)

/-- Moves over a mark or a keyword that is wanted at a place. -/
def eatMark (kind : TokenKind) (place : Place) : Parser Token :=
  eat kind (.wants (.mark kind) place)

/-- Moves over the name of a variable that is wanted at a place. -/
def eatName (place : Place) : Parser Token :=
  eat .identifier (.wants .variableName place)

/-- The number of tokens ahead.  Each round of a loop moves over at least one of them. -/
def tokensAhead : Parser Nat :=
  return (← get).size - (← get).position

end Scriptlet.Grammar
