import Scriptlet.CommandLine.Perform

/-!
# The program

Performs the request of the command line on the files of the system, within the limits that the
system is given here.
-/

set_option autoImplicit false
namespace Scriptlet.CommandLine

/-- The reason of the system for refusing to open a file. -/
def faultOf (e : IO.Error) : FileFault :=
  match e with
  | .noFileOrDirectory .. => .notFound
  | .inappropriateType _ code text | .permissionDenied _ code text
  | .alreadyExists _ code text | .resourceExhausted _ code text
  | .invalidArgument _ code text => .system code.toNat text
  | .otherError code text | .hardwareFault code text => .system code.toNat text
  | other => .system 5 (toString other)

/-- The result of an action on the file at a path, or the reason for refusing it. -/
def refusedOr {α : Type} (path : String) (action : IO α) : IO (Except FileFault α) := do
  if path.toList.contains '\x00' then return .error .nullInPath
  match ← action.toBaseIO with
  | .ok a => return .ok a
  | .error e => return .error (faultOf e)

/-- The host that the system makes. -/
def systemHost : Host IO where
  read path := refusedOr path (IO.FS.readBinFile path)
  openEmpty path := refusedOr path (IO.FS.writeBinFile path ByteArray.empty)
  fill path content := refusedOr path (IO.FS.writeBinFile path content)
  print text := do
    let out ← IO.getStdout
    out.putStr text
    out.flush
  report text := IO.eprint text

/-- How deep the program goes before it gives up. -/
@[reducible] def systemLimits : Limits where
  nesting := 985
  calls := 491

end Scriptlet.CommandLine

open Scriptlet.CommandLine in
/-- Performs the request of the command line. -/
def main (arguments : List String) : IO UInt32 := do
  let debug := (← IO.getEnv "CPYDEBUG").any (· ≠ "")
  match ← @perform systemLimits IO _ systemHost debug arguments with
  | .exit status => return status.toUInt32
  | .escaped failure =>
    IO.eprintln failure.message
    return 1
