import Scriptlet.Text.Digit
import Scriptlet.Text.Quoted

/-!
# Arguments of a command

A command takes flags and plain arguments.  A flag is given by its short name, by its long name or
by a beginning of the long name that no other flag shares; short flags may share one dash.  A flag
that takes a value has it attached or in the next argument.  After the argument `--` all arguments
are plain.

* `classify` — what each argument is, before any of them is acted on.
* `cluster` — what the text attached to a short flag means.
* `collect` — the arguments in order: flags given, plain arguments used, all else left over.
-/

set_option autoImplicit false
namespace Scriptlet.CommandLine

/-- The flags of all commands. -/
inductive Flag where
  | help | debug | output
  deriving DecidableEq, Repr

namespace Flag

/-- The names of a flag. -/
def names : Flag → List String
  | help => ["-h", "--help"]
  | debug => ["--debug"]
  | output => ["-o", "--output"]

/-- Whether a flag takes a value. -/
def takesValue : Flag → Bool
  | output => true
  | _ => false

/-- How a flag is called in messages. -/
def title (f : Flag) : String :=
  String.intercalate "/" f.names

end Flag

/-- What a command takes: its flags, and whether its first plain argument takes along all that
follow it. -/
structure Form where
  flags : List Flag
  takesRest : Bool

namespace Form

/-- The names of all flags, in order. -/
def named (form : Form) : List (String × Flag) :=
  form.flags.flatMap fun f => f.names.map fun name => (name, f)

/-- The flag of a name. -/
def flag? (form : Form) (name : String) : Option Flag :=
  List.lookup name form.named

end Form

/-! ## Faults -/

/-- Why arguments are refused. -/
inductive Fault where
  | ambiguous (argument : String) (names : List String)
  | needlessValue (flag : Flag) (text : String)
  | missingValue (flag : Flag)
  | unknownCommand (name : String) (known : List String)
  | missing (what : String)
  | unrecognized (arguments : List String)

/-- The wording of a fault. -/
def Fault.text : Fault → String
  | ambiguous argument names =>
    "ambiguous option: " ++ argument ++ " could match " ++ String.intercalate ", " names
  | needlessValue flag text =>
    "argument " ++ flag.title ++ ": ignored explicit argument " ++ Text.quoted text
  | missingValue flag => "argument " ++ flag.title ++ ": expected one argument"
  | unknownCommand name known =>
    "argument command: invalid choice: " ++ Text.quoted name ++ " (choose from " ++
      String.intercalate ", " (known.map Text.quoted) ++ ")"
  | missing what => "the following arguments are required: " ++ what
  | unrecognized arguments => "unrecognized arguments: " ++ String.intercalate " " arguments

/-! ## What an argument is -/

/-- What an argument is. -/
inductive Role where
  | plain
  | separator
  | flag (f : Flag) (long : Bool) (attached : Option (List Char))
  | unknown

/-- A text without a line feed at its end. -/
def dropFinalNewline (cs : List Char) : List Char :=
  if cs.getLast? = some '\n' then cs.dropLast else cs

/-- Whether a text is a negative number in plain digits; a line feed may end it. -/
def isNegativeNumber (cs : List Char) : Bool :=
  match dropFinalNewline cs with
  | '-' :: rest =>
    let isDigit := fun c => (Text.digitValue? c).isSome
    let (whole, fraction) := (rest.takeWhile isDigit, rest.dropWhile isDigit)
    match fraction with
    | [] => !whole.isEmpty
    | '.' :: digits => !digits.isEmpty && digits.all isDigit
    | _ => false
  | _ => false

/-- A text cut at its first equals sign. -/
def cutAtEquals (cs : List Char) : List Char × Option (List Char) :=
  match cs.dropWhile (· ≠ '=') with
  | [] => (cs, none)
  | _ :: value => (cs.takeWhile (· ≠ '='), some value)

/-- The flags that a text with a dash may mean, with the name meant and the text attached. -/
def candidates (form : Form) (cs : List Char) : List (String × Flag × Option (List Char)) :=
  match cs with
  | '-' :: '-' :: _ =>
    let (start, attached) := cutAtEquals cs
    form.named.filterMap fun (name, f) =>
      if start.isPrefixOf name.toList then some (name, f, attached) else none
  | '-' :: c :: rest =>
    form.named.filterMap fun (name, f) =>
      if name.toList = ['-', c] then some (name, f, some rest) else none
  | _ => []

/-- Whether a name is a long one. -/
def isLong (name : String) : Bool :=
  "--".toList.isPrefixOf name.toList

/-- What an argument that stands before any `--` is. -/
def roleOf (form : Form) (argument : String) : Except Fault Role :=
  let cs := argument.toList
  if cs.head? ≠ some '-' then .ok .plain
  else match form.flag? argument with
    | some f => .ok (.flag f (isLong argument) none)
    | none =>
      if cs.length = 1 then .ok .plain
      else
        let (start, attached) := cutAtEquals cs
        let name := String.ofList start
        match attached, form.flag? name with
        | some a, some f => .ok (.flag f (isLong name) (some a))
        | _, _ =>
          match candidates form cs with
          | [(name, f, a)] => .ok (.flag f (isLong name) a)
          | [] => .ok (if isNegativeNumber cs || cs.contains ' ' then .plain else .unknown)
          | several => .error (.ambiguous argument (several.map (·.1)))

/-- What each argument is. -/
def classify (form : Form) : List String → Except Fault (List (String × Role))
  | [] => .ok []
  | argument :: rest =>
    if argument = "--" then .ok ((argument, .separator) :: rest.map fun a => (a, .plain))
    else do
      let role ← roleOf form argument
      return (argument, role) :: (← classify form rest)

/-! ## Flags that share a dash -/

/-- How a group of flags ends: with a flag and its value, with a flag that needs the next argument,
or with neither. -/
inductive Tail where
  | alone
  | value (f : Flag) (text : String)
  | wantsValue (f : Flag)

/-- A flag with nothing attached: itself, or the end of a group. -/
def Flag.single (f : Flag) : List Flag × Tail :=
  if f.takesValue then ([], .wantsValue f) else ([f], .alone)

/-- A short flag with text attached.  The text is the value of a flag that takes one, else it begins
with the letter of another flag, to which the rest of it is attached. -/
def cluster (form : Form) : Flag → List Char → Except Fault (List Flag × Tail)
  | f, [] =>
    if f.takesValue then .ok ([], .value f "") else .error (.needlessValue f "")
  | f, c :: rest =>
    if f.takesValue then .ok ([], .value f (String.ofList (c :: rest)))
    else match form.flag? (String.ofList ['-', c]) with
      | none => .error (.needlessValue f (String.ofList (c :: rest)))
      | some g =>
        if rest.isEmpty then .ok (f :: g.single.1, g.single.2)
        else do
          let (fs, tail) ← cluster form g rest
          return (f :: fs, tail)

/-- The flags that one argument gives. -/
def flagsOf (form : Form) (f : Flag) (long : Bool) : Option (List Char) →
    Except Fault (List Flag × Tail)
  | none => .ok f.single
  | some text =>
    if long then
      if f.takesValue then .ok ([], .value f (String.ofList text))
      else .error (.needlessValue f (String.ofList text))
    else cluster form f text

/-! ## The arguments in order -/

/-- What the arguments of a command give. -/
structure Given where
  debug : Bool := false
  output : Option String := none
  operands : List String := []
  leftOver : List String := []

/-- Why no arguments are given in the end: help was asked for, or they are at fault. -/
inductive Refusal where
  | help
  | fault (f : Fault)

namespace Given

/-- Adds an argument that no one takes. -/
def leave (g : Given) (argument : String) : Given :=
  { g with leftOver := g.leftOver ++ [argument] }

/-- Acts on flags without values, in order. -/
def act (g : Given) : List Flag → Except Refusal Given
  | [] => .ok g
  | .help :: _ => .error .help
  | .debug :: rest => { g with debug := true }.act rest
  | .output :: rest => g.act rest

/-- Acts on a value of a flag.  A separator is no value: it counts as an empty one. -/
def actOn (g : Given) (f : Flag) (value : String) : Given :=
  match f with
  | .output => { g with output := some (if value = "--" then "" else value) }
  | _ => g

end Given

/-- The arguments in order.  The separator next to the plain argument that is used is used with
it; only plain arguments follow a separator. -/
def collect (form : Form) (g : Given) : List (String × Role) → Except Refusal Given
  | [] => .ok g
  | (a, .unknown) :: rest => collect form (g.leave a) rest
  | (a, .plain) :: rest =>
    if !g.operands.isEmpty then collect form (g.leave a) rest
    else if form.takesRest then .ok { g with operands := a :: rest.map (·.1) }
    else
      let g := { g with operands := [a] }
      match rest with
      | (_, .separator) :: rest => collect form g rest
      | rest => collect form g rest
  | (a, .separator) :: rest =>
    if !g.operands.isEmpty then collect form (g.leave a) rest
    else match rest with
      | (b, .plain) :: after =>
        if form.takesRest then .ok { g with operands := a :: b :: after.map (·.1) }
        else collect form { g with operands := [b] } after
      | _ => .ok (g.leave a)
  | (_, .flag f long attached) :: rest =>
    match flagsOf form f long attached with
    | .error e => .error (.fault e)
    | .ok (flags, .alone) =>
      match g.act flags with
      | .error r => .error r
      | .ok g => collect form g rest
    | .ok (flags, .value h text) =>
      match g.act flags with
      | .error r => .error r
      | .ok g => collect form (g.actOn h text) rest
    | .ok (flags, .wantsValue h) =>
      match rest with
      | (value, .plain) :: rest =>
        match g.act flags with
        | .error r => .error r
        | .ok g => collect form (g.actOn h value) rest
      | _ => .error (.fault (.missingValue h))

/-- What the arguments of a command give. -/
def gather (form : Form) (arguments : List String) : Except Refusal Given :=
  match classify form arguments with
  | .error e => .error (.fault e)
  | .ok roles => collect form {} roles

end Scriptlet.CommandLine
