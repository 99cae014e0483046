import Scriptlet.Build
import Scriptlet.CodeText.Document
import Scriptlet.CommandLine.Request
import Scriptlet.FileTree
import Scriptlet.Machine.Run
import Scriptlet.Syntax.Display
import Scriptlet.Text.Utf8

/-!
# Performing requests

A request is performed on a host: something that reads files, opens files for writing, and takes
what is printed and what is reported.  The same definitions serve the files of the system and the
model of files in `FileTree`.

* `Host` — what a host can do.
* `compileSource`, `runCode`, `listCode` — the three tasks.
* `perform` — what the program does on some arguments.
* `Session` — files with what was printed and reported, and `Session.host`, the host they make.
-/

set_option autoImplicit false
namespace Scriptlet.CommandLine

/-! ## Hosts -/

/-- What a host can do.  Opening a file for writing empties it. -/
structure Host (m : Type → Type) where
  read : String → m (Except FileFault ByteArray)
  openEmpty : String → m (Except FileFault Unit)
  fill : String → ByteArray → m (Except FileFault Unit)
  print : String → m Unit
  report : String → m Unit

/-- A failure that none of the tasks answers for. -/
inductive Escape where
  | undecodable (fault : Text.Utf8.Fault)
  | unwritable (error : CodeText.Error)
  | nameless (error : Path.Nameless)
  | nullInPath

/-- The wording of such a failure. -/
def Escape.message : Escape → String
  | undecodable fault => fault.message
  | unwritable error => error.message
  | nameless error => error.message
  | nullInPath => "embedded null byte"

/-- How a call of the program ends: with an exit status, or with a failure that escapes. -/
inductive Outcome where
  | exit (status : Nat)
  | escaped (failure : Escape)

variable [Limits] {m : Type → Type} [Monad m]

/-- Reports a line about a step, if steps are to be reported. -/
def Host.trace (host : Host m) (debug : Bool) (part line : String) : m Unit :=
  if debug then host.report ("DEBUG cpylang." ++ part ++ ": " ++ line ++ "\n") else pure ()

/-- Ends with an error that is reported as a line. -/
def Host.fail (host : Host m) (line : String) : m Outcome := do
  host.report (line ++ "\n")
  return .exit 1

/-- Ends with a file that cannot be opened. -/
def Host.failOn (host : Host m) (path : String) : FileFault → m Outcome
  | .system number text =>
    host.fail ("Error: [Errno " ++ toString number ++ "] " ++ text ++ ": " ++ Text.quoted path)
  | .nullInPath => return .escaped .nullInPath

/-! ## Compiling -/

/-- The line about a patch. -/
def patchLine (p : Patch) : String :=
  "patched " ++ p.opcode.name ++ " at " ++ toString p.index ++ " -> " ++ toString p.target

/-- The line about the size of a build. -/
def sizeLine (b : Build) : String :=
  "compiled " ++ toString b.statements.length ++ " statements into " ++
    toString b.code.length ++ " instructions"

/-- Reports the steps of assembling. -/
def traceAssembly (host : Host m) (debug : Bool) (b : Build) : m Unit := do
  b.buffer.patches.toList.forM fun p => host.trace debug "compiler" (patchLine p)
  host.trace debug "compiler" (sizeLine b)

/-- Prints the stages of a build: tokens, statements and listing.  Statements are assembled anew for
the listing. -/
def printStages (host : Host m) (b : Build) : m (Except CodeText.Error Unit) := do
  host.print ("\nTokens:\n\n" ++ b.tokens.display ++ "\n")
  host.print "\nAST:\n\n"
  b.statements.forM fun s => host.print (s.display ++ "\n")
  host.print "\nBytecode:\n\n"
  traceAssembly host true b
  match CodeText.listing b.code with
  | .error e => return .error e
  | .ok text =>
    host.print (text ++ "\n \n")
    return .ok ()

/-- Writes the code of a build to a path. -/
def writeCode (host : Host m) (debug : Bool) (source output : Path) (b : Build) : m Outcome := do
  match ← host.openEmpty output.text with
  | .error fault => host.failOn output.text fault
  | .ok () =>
    match CodeText.serialize b.code with
    | .error e => return .escaped (.unwritable e)
    | .ok bytes =>
      match ← host.fill output.text bytes with
      | .error fault => host.failOn output.text fault
      | .ok () =>
        host.trace debug "cli" ("wrote " ++ output.text)
        host.print ("Compiled: " ++ source.text ++ " -> " ++ output.text ++ "\n")
        host.print (toString b.code.length ++ " instructions generated.\n")
        return .exit 0

/-- Where the code of a source goes: to the path given, unless it is empty, else next to the
source. -/
def outputPath (source : Path) : Option String → Except Path.Nameless Path
  | some path => if path = "" then source.compiled else .ok (Path.ofString path)
  | none => source.compiled

/-- What is left to do with a build. -/
def deliver (host : Host m) (debug : Bool) (source : Path) (output : Option String) (b : Build) :
    m Outcome := do
  traceAssembly host debug b
  match ← if debug then printStages host b else pure (.ok ()) with
  | .error e => return .escaped (.unwritable e)
  | .ok () =>
    match outputPath source output with
    | .error e => return .escaped (.nameless e)
    | .ok output => writeCode host debug source output b

/-- Compiles a source.  All ways to end a line are one in it. -/
def compileSource (host : Host m) (debug : Bool) (source : Path) (output : Option String) :
    m Outcome := do
  match ← host.read source.text with
  | .error fault => host.failOn source.text fault
  | .ok bytes =>
    match Text.Utf8.decode bytes with
    | .error fault => return .escaped (.undecodable fault)
    | .ok text =>
      match build (Text.unifyNewlines text.toList) with
      | .error e =>
        host.trace debug "toolchain" ("compilation failed (" ++ e.kindName ++ "): " ++ e.message)
        host.fail e.message
      | .ok b => deliver host debug source output b

/-! ## Code from a file -/

/-- Reports the steps of reading code from bytes. -/
def traceReading (host : Host m) (debug : Bool) (bytes : ByteArray)
    (program : Except CodeText.Error (List Instruction)) : m Unit := do
  match CodeText.decodeText bytes with
  | .error _ => pure ()
  | .ok text =>
    let lines := Text.lines text.toList
    if CodeText.hasHeader lines then
      host.trace debug "bytecode"
        ("bytecode header ok: " ++ String.ofList (CodeText.firstLine lines))
  match program with
  | .error _ => pure ()
  | .ok code => host.trace debug "bytecode" ("decoded " ++ toString code.length ++ " instructions")

/-- Reads code from a file and does something with it. -/
def withCode (host : Host m) (debug : Bool) (path : String) (use : List Instruction → m Outcome) :
    m Outcome := do
  match ← host.read path with
  | .error fault => host.failOn path fault
  | .ok bytes =>
    let program := CodeText.deserialize bytes
    traceReading host debug bytes program
    match program with
    | .error e => host.fail ("Error reading bytecode: " ++ e.message)
    | .ok code => use code

/-! ## Running -/

/-- The number of steps between two times that what a run wrote is printed. -/
def stretch : Nat := 65536

/-- More stretches than any run takes. -/
def manyStretches : Nat := Nat.pow 2 46

/-- Runs a program stretch by stretch, and prints after each what was written in it. -/
def runAloud (host : Host m) (program : Array Instruction) :
    Nat → Machine.State → m (Machine.Ending × Machine.State)
  | 0, s => return (.outOfSteps, s)
  | more + 1, s => do
    let (ending, s) := Machine.run program stretch s
    host.print s.written
    match ending with
    | .outOfSteps => runAloud host program more { s with written := "" }
    | _ => return (ending, s)

/-- Runs code. -/
def runCode (host : Host m) (debug : Bool) (code : List Instruction) : m Outcome := do
  match ← runAloud host code.toArray manyStretches {} with
  | (.failed e, s) =>
    host.trace debug "toolchain"
      ("execution failed at " ++ toString s.counter ++ ": " ++ e.message)
    host.fail e.message
  | (.halted, s) =>
    host.trace debug "vm" ("halt at " ++ toString s.counter)
    return .exit 0
  | _ => return .exit 0

/-! ## Listing -/

/-- Lists code. -/
def listCode (host : Host m) (code : List Instruction) : m Outcome := do
  match CodeText.listing code with
  | .error e => return .escaped (.unwritable e)
  | .ok text =>
    host.print (text ++ "\n")
    return .exit 0

/-! ## The program -/

/-- Performs a request. -/
def Request.perform (host : Host m) (r : Request) : m Outcome :=
  match r.task with
  | .compile source output => compileSource host r.debug (Path.ofString source) output
  | .run path => withCode host r.debug path (runCode host r.debug)
  | .disassemble path => withCode host r.debug path (listCode host)

/-- What the program does on some arguments.  Steps are reported if a flag or the environment asks
for it. -/
def perform (host : Host m) (debug : Bool) (arguments : List String) : m Outcome := do
  match request arguments with
  | .error ⟨topic, .help⟩ =>
    host.print topic.help
    return .exit 0
  | .error ⟨topic, .fault f⟩ =>
    host.report (topic.complaint f)
    return .exit 2
  | .ok r => Request.perform host { r with debug := debug || r.debug }

/-! ## Sessions -/

/-- Files, and what was printed and reported. -/
structure Session where
  files : FileTree := {}
  printed : String := ""
  reported : String := ""

/-- Gives a file of a session a content. -/
def Session.put (path : String) (content : ByteArray) : StateM Session (Except FileFault Unit) :=
  fun s =>
    match s.files.put path content with
    | .error fault => (.error fault, s)
    | .ok files => (.ok (), { s with files })

/-- The host that a session makes. -/
def Session.host : Host (StateM Session) where
  read path := return (← get).files.read path
  openEmpty path := Session.put path ByteArray.empty
  fill path content := Session.put path content
  print text := modify fun s => { s with printed := s.printed ++ text }
  report text := modify fun s => { s with reported := s.reported ++ text }

end Scriptlet.CommandLine
