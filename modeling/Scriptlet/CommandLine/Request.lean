import Scriptlet.CommandLine.Arguments

/-!
# Requests

What a user can ask for: compiling a source, running compiled code, listing compiled code, or help.
The first plain argument names the command, and all arguments after it are the command's own.

* `Command` — the commands with their usage and help.
* `request` — what some arguments ask for.
-/

set_option autoImplicit false
namespace Scriptlet.CommandLine

/-! ## Commands -/

/-- The commands. -/
inductive Command where
  | compile | run | disassemble
  deriving DecidableEq, Repr

namespace Command

/-- The name of a command. -/
def name : Command → String
  | compile => "compile"
  | run => "run"
  | disassemble => "disasm"

/-- All commands. -/
def all : List Command := [compile, run, disassemble]

/-- The command of a name. -/
def ofName? (name : String) : Option Command :=
  all.find? (·.name = name)

/-- What a command takes. -/
def form : Command → Form
  | compile => ⟨[.help, .output], false⟩
  | _ => ⟨[.help], false⟩

/-- How the plain argument of a command is called. -/
def operandName : Command → String
  | compile => "source"
  | _ => "bytecode"

end Command

/-! ## Usage and help -/

/-- The program as a whole, or one command of it. -/
inductive Topic where
  | program
  | command (c : Command)
  deriving DecidableEq, Repr

namespace Topic

/-- How the program and its commands are called. -/
def title : Topic → String
  | program => "cpy"
  | command c => "cpy " ++ c.name

/-- The arguments that a topic takes, in short. -/
def synopsis : Topic → String
  | program => "[-h] [--debug] \x7bcompile,run,disasm\x7d ..."
  | command .compile => "[-h] [-o OUTPUT] source"
  | command _ => "[-h] bytecode"

/-- The usage line. -/
def usage (t : Topic) : String :=
  "usage: " ++ t.title ++ " " ++ t.synopsis ++ "\n"

/-- What a topic's arguments mean. -/
def explanation : Topic → String
  | program =>
    "CPY compiler and virtual machine\n\n" ++
    "positional arguments:\n" ++
    "  \x7bcompile,run,disasm\x7d\n" ++
    "    compile             compile a .cpy source file to bytecode\n" ++
    "    run                 execute a .cpyc bytecode file\n" ++
    "    disasm              print a numbered listing of a .cpyc file\n\n" ++
    "options:\n" ++
    "  -h, --help            show this help message and exit\n" ++
    "  --debug               log at DEBUG level and dump compiler stages (also\n" ++
    "                        enabled by CPYDEBUG)\n"
  | command .compile =>
    "positional arguments:\n" ++
    "  source                path to a .cpy source file\n\n" ++
    "options:\n" ++
    "  -h, --help            show this help message and exit\n" ++
    "  -o OUTPUT, --output OUTPUT\n" ++
    "                        bytecode output path (default: <source>.cpyc)\n"
  | command _ =>
    "positional arguments:\n" ++
    "  bytecode    path to a .cpyc bytecode file\n\n" ++
    "options:\n" ++
    "  -h, --help  show this help message and exit\n"

/-- The help text. -/
def help (t : Topic) : String :=
  t.usage ++ "\n" ++ t.explanation

/-- The wording of a fault in the arguments of a topic. -/
def complaint (t : Topic) (f : Fault) : String :=
  t.usage ++ t.title ++ ": error: " ++ f.text ++ "\n"

end Topic

/-! ## Requests -/

/-- What the program is asked to do. -/
inductive Task where
  | compile (source : String) (output : Option String)
  | run (path : String)
  | disassemble (path : String)

/-- A task, and whether its steps are to be reported. -/
structure Request where
  task : Task
  debug : Bool

/-- A refusal and the topic that it is about. -/
structure Dismissal where
  topic : Topic
  refusal : Refusal

/-- What the program itself takes. -/
def programForm : Form := ⟨[.help, .debug], true⟩

/-- The task that the arguments of a command ask for, and the arguments left over. -/
def taskOf (c : Command) (arguments : List String) : Except Refusal (Task × List String) :=
  match gather c.form arguments with
  | .error r => .error r
  | .ok g =>
    match g.operands with
    | [] => .error (.fault (.missing c.operandName))
    | operand :: _ =>
      let task := match c with
        | .compile => .compile operand g.output
        | .run => .run operand
        | .disassemble => .disassemble operand
      .ok (task, g.leftOver)

/-- What some arguments ask for.  Arguments that no one takes are refused in the end, those before
the command first. -/
def request (arguments : List String) : Except Dismissal Request :=
  match gather programForm arguments with
  | .error r => .error ⟨.program, r⟩
  | .ok g =>
    match g.operands with
    | [] => .error ⟨.program, .fault (.missing "command")⟩
    | name :: arguments =>
      match Command.ofName? name with
      | none => .error ⟨.program, .fault (.unknownCommand name (Command.all.map (·.name)))⟩
      | some c =>
        match taskOf c arguments with
        | .error r => .error ⟨.command c, r⟩
        | .ok (task, leftOver) =>
          if (g.leftOver ++ leftOver).isEmpty then .ok ⟨task, g.debug⟩
          else .error ⟨.program, .fault (.unrecognized (g.leftOver ++ leftOver))⟩

end Scriptlet.CommandLine
