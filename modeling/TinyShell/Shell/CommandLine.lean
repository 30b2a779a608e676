import TinyShell.Shell.Session

/-!
# Command line

The arguments of the shell: switches, a prompt, or a call for help. The first
argument that cannot be understood decides the error.
-/

set_option autoImplicit false

namespace TinyShell

inductive ArgumentError
  | unrecognized (argument : Text)
  | missingValue (option : Text)
  | duplicateValue (option value : Text)
  | afterHelp
deriving DecidableEq, Repr

namespace ArgumentError

def message : ArgumentError → Text
  | unrecognized argument => "Unrecognized argument: " ++ argument ++ "\n"
  | missingValue option => "No value provided for option '" ++ option ++ "'.\n"
  | duplicateValue option value =>
    "Error parsing option '" ++ option ++ "' with value '" ++ value ++
      "': duplicate values provided\n"
  | afterHelp => "Trailing arguments are not allowed after `help`."

end ArgumentError

structure Options where
  quiet : Bool
  verbose : Bool
  colorless : Bool
  prompt : Option Text
deriving DecidableEq, Repr

namespace Options

def standard : Options := ⟨false, false, false, none⟩

def settings (o : Options) (terminals : Terminals) : Settings :=
  let s := Settings.named Settings.standardName terminals
  let s := if o.quiet then s.quiet else s
  let s := if o.verbose then s.verbose else s
  let s := if o.colorless then s.colorless else s
  match o.prompt with
  | some prompt => s.prompting prompt
  | none => s

def switch? (o : Options) (text : Text) : Option Options :=
  if text = "-q" ∨ text = "--quiet" then some { o with quiet := true }
  else if text = "-v" ∨ text = "--verbose" then some { o with verbose := true }
  else if text = "--no-color" then some { o with colorless := true }
  else none

end Options

namespace CommandLine

inductive Request
  | help
  | shell (options : Options)
deriving DecidableEq, Repr

def callsHelp (argument : Text) : Bool := argument = "--help" || argument = "help"

def separator : Text := "--"

def promptOption : Text := "--prompt"

def isOption (argument : Text) : Bool := argument.head? == some '-'

structure Progress where
  options : Options
  help : Bool
  ended : Bool
  waiting : Bool
deriving DecidableEq, Repr

def Progress.start : Progress := ⟨.standard, false, false, false⟩

def step (p : Progress) (argument : Text) : Except ArgumentError Progress :=
  if p.waiting then
    if p.options.prompt.isSome then .error (.duplicateValue promptOption argument)
    else .ok { p with waiting := false, options := { p.options with prompt := some argument } }
  else if !p.ended && callsHelp argument then .ok { p with help := true }
  else if p.ended || !isOption argument then .error (.unrecognized argument)
  else if argument = separator then .ok { p with ended := true }
  else if p.help then .error .afterHelp
  else if argument = promptOption then .ok { p with waiting := true }
  else
    match p.options.switch? argument with
    | some options => .ok { p with options := options }
    | none => .error (.unrecognized argument)

def finish (p : Progress) : Except ArgumentError Request :=
  if p.waiting then .error (.missingValue promptOption)
  else .ok (if p.help then .help else .shell p.options)

def request (arguments : List Text) : Except ArgumentError Request :=
  match arguments.foldlM step .start with
  | .error e => .error e
  | .ok progress => finish progress

def synopsis : Text :=
  "Usage: " ++ Settings.standardName ++ " [-q] [-v] [--no-color] [--prompt <prompt>]"

def usageLines : List Text :=
  [synopsis,
   "",
   "A small shell reading statements from standard input.",
   "",
   "Options:",
   "  -q, --quiet       report errors only",
   "  -v, --verbose     also report what the shell is doing",
   "  --no-color        never color diagnostics",
   "  --prompt          prompt printed before each line when reading from a terminal",
   "  --help, help      display usage information",
   ""]

def usage : Text := usageLines.flatMap (· ++ ['\n'])

def hint : Text := "\nRun " ++ Settings.standardName ++ " --help for more information.\n"

def run (arguments : List Text) (terminals : Terminals) (home search : Option Text)
    (execute : Executor) (s : ShellState) : Nat × ShellState :=
  match request arguments with
  | .error e => (1, s.say 2 (e.message ++ hint))
  | .ok .help => (0, s.say 1 usage)
  | .ok (.shell options) =>
    (Session.ofSettings (options.settings terminals) terminals home search execute).startShared s

end CommandLine

end TinyShell
