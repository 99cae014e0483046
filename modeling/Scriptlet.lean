import Scriptlet.Assembly.Assemble
import Scriptlet.Assembly.CodeBuffer
import Scriptlet.Build
import Scriptlet.CodeText.Document
import Scriptlet.CodeText.Escape
import Scriptlet.CodeText.FormatError
import Scriptlet.CodeText.Line
import Scriptlet.CommandLine.Arguments
import Scriptlet.CommandLine.Perform
import Scriptlet.CommandLine.Request
import Scriptlet.Decimal.Binary64
import Scriptlet.Decimal.Format
import Scriptlet.Decimal.Nearest
import Scriptlet.Decimal.Numeral
import Scriptlet.Decimal.Shortest
import Scriptlet.Declaration
import Scriptlet.FileTree
import Scriptlet.Grammar.Cursor
import Scriptlet.Grammar.Expectation
import Scriptlet.Grammar.Expression
import Scriptlet.Grammar.Statement
import Scriptlet.Heap
import Scriptlet.Instruction
import Scriptlet.Limits
import Scriptlet.Machine.Execute
import Scriptlet.Machine.Fault
import Scriptlet.Machine.Operation
import Scriptlet.Machine.Run
import Scriptlet.Machine.Snapshot
import Scriptlet.Machine.State
import Scriptlet.Main
import Scriptlet.Path
import Scriptlet.Proofs.Correctness
import Scriptlet.Proofs.Decimal.Binary64
import Scriptlet.Proofs.Decimal.Nearest
import Scriptlet.Proofs.Decimal.RoundTrip
import Scriptlet.Proofs.Evaluation
import Scriptlet.Proofs.Grammar.Completeness
import Scriptlet.Proofs.Grammar.Derivation
import Scriptlet.Proofs.Grammar.Reading
import Scriptlet.Proofs.Grammar.Soundness
import Scriptlet.Proofs.Grammar.Tables
import Scriptlet.Proofs.Layout
import Scriptlet.Proofs.Machine.StackHeight
import Scriptlet.Proofs.Machine.Steps
import Scriptlet.Syntax
import Scriptlet.Syntax.Display
import Scriptlet.Text.Blank
import Scriptlet.Text.Digit
import Scriptlet.Text.Lines
import Scriptlet.Text.Printable
import Scriptlet.Text.Quoted
import Scriptlet.Text.Utf8
import Scriptlet.Token
import Scriptlet.Token.Scan
import Scriptlet.Value
import Scriptlet.Proofs.Events
import Scriptlet.Proofs.Declaration
import Scriptlet.Proofs.Violations
import Scriptlet.Proofs.Machine.Effect
import Scriptlet.Proofs.Machine.Defined
import Scriptlet.Proofs.CodeText.RoundTrip
import Scriptlet.Proofs.CodeText.Assembled
import Scriptlet.Proofs.FileTree
import Scriptlet.Proofs.CommandLine.Compile
import Scriptlet.Proofs.CodeText.NormalForm
import Scriptlet.Proofs.CommandLine.Disassemble
import Scriptlet.Proofs.Token.LongestMatch
import Scriptlet.Proofs.Grammar.Parallel
import Scriptlet.Proofs.Grammar.Agreement
import Scriptlet.Proofs.Spacing
import Scriptlet.Proofs.Grammar.Completion
import Scriptlet.Proofs.Grammar.FirstError
import Scriptlet.Proofs.Relabeling
import Scriptlet.Proofs.Unlined
import Scriptlet.Proofs.Concatenation
import Scriptlet.Proofs.Machine.Footprint
import Scriptlet.Proofs.Machine.Stretches
import Scriptlet.Proofs.Machine.Invariants
import Scriptlet.Proofs.Machine.Renaming
import Scriptlet.Proofs.Heap.Unfolding
import Scriptlet.Proofs.Decimal.Number
import Scriptlet.Proofs.Heap.Rendering
import Scriptlet.Proofs.Heap.Equality
import Scriptlet.Proofs.Machine.Aliasing
import Scriptlet.Proofs.Relocation
import Scriptlet.Proofs.Desugaring
import Scriptlet.Proofs.CodeText.LineEndings
import Scriptlet.Proofs.Grammar.Loops
import Scriptlet.Proofs.Grammar.Progress
import Scriptlet.Proofs.Grammar.Operations
import Scriptlet.Proofs.Writes
import Scriptlet.Proofs.WriteOnce
