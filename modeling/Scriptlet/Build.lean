import Scriptlet.Assembly.Assemble
import Scriptlet.Declaration
import Scriptlet.Grammar.Statement
import Scriptlet.Token.Scan

/-!
# Building a program

From the text of a program to its code: the text is cut into tokens, the tokens are read as
statements, the declarations of the statements are checked, and the statements are assembled.  The
first step that fails decides the error.  Only the second step has a limit on nesting; the two that
follow are taken to have room for every tree, however deep (see `Limits`).
-/

set_option autoImplicit false
namespace Scriptlet

/-- Everything that building a program yields. -/
structure Build where
  tokens : TokenStream
  statements : List Stmt
  buffer : CodeBuffer

/-- The instructions of a build. -/
def Build.code (b : Build) : List Instruction :=
  b.buffer.code.toList

/-- Why a program cannot be built. -/
inductive BuildError where
  | scan (error : ScanError)
  | grammar (error : Grammar.Error)
  | declarations (violations : List Violation)

namespace BuildError

/-- The name of the kind of an error. -/
def kindName : BuildError → String
  | scan _ => "lex"
  | grammar _ => "parse"
  | declarations _ => "semantic"

/-- The wording of an error. -/
def message : BuildError → String
  | scan e => e.message
  | grammar e => e.message
  | declarations vs => violationsMessage vs

end BuildError

variable [Limits]

/-- The statements of a text, with the tokens they were read from. -/
def readStatements (source : List Char) : Except BuildError (TokenStream × List Stmt) :=
  match tokenize source with
  | .error e => .error (.scan e)
  | .ok tokens =>
    match Grammar.parse tokens with
    | .error e => .error (.grammar e)
    | .ok statements => .ok (tokens, statements)

/-- Builds the program that a text writes. -/
def build (source : List Char) : Except BuildError Build :=
  match readStatements source with
  | .error e => .error e
  | .ok (tokens, statements) =>
    match (Scope.check {} statements).verdict with
    | .error violations => .error (.declarations violations)
    | .ok () => .ok ⟨tokens, statements, assemble statements⟩

/-- A build has gone through all four steps. -/
theorem build_eq_ok_iff {source : List Char} {b : Build} :
    build source = .ok b ↔ ∃ tokens statements, tokenize source = .ok tokens ∧
      Grammar.parse tokens = .ok statements ∧ (Scope.check {} statements).violations = #[] ∧
        b = ⟨tokens, statements, assemble statements⟩ := by
  rw [build, readStatements]
  cases tokenize source with
  | error e => simp
  | ok tokens =>
    cases hparse : Grammar.parse tokens with
    | error e => simp [hparse]
    | ok statements =>
      by_cases hcheck : (Scope.check {} statements).violations = #[]
      · simpa [hparse, Scope.verdict, hcheck] using eq_comm
      · simp [hparse, Scope.verdict, hcheck]

end Scriptlet
