import TinyShell.Input.Line
import TinyShell.Machine.Execution
import TinyShell.Machine.Program
import TinyShell.Machine.Script

/-!
# Running scripts

An interpreter takes the steps of a script one after the other. A script that
is a file is read as far as it goes, and once more when all that was read is
done, so that what was added to it meanwhile is run too.
-/

set_option autoImplicit false

namespace TinyShell

structure Refusal where
  reason : Errno
  found : Bool
deriving DecidableEq, Repr

namespace Refusal

def message (r : Refusal) : Text :=
  if r.reason = .noEntry ∨ r.reason = .notDirectory then "not found"
  else Program.reason r.reason

def code (r : Refusal) : Nat := if r.found then 126 else 127

end Refusal

abbrev Launcher := Text → List Text → Process → World → Except Refusal (Ending × World)

structure Interpreter where
  launch : Launcher
  name : Text
  arguments : List Text
  process : Process

namespace Interpreter

inductive Progress
  | goesOn (code : Nat)
  | ends (ending : Ending)
deriving DecidableEq, Repr

def place (name : Text) (line : Nat) : Text := name ++ ": " ++ Text.ofNat line

def complain (i : Interpreter) (line : Nat) (message : Text) (w : World) : World :=
  Program.complain (place i.name line) message i.process w

def fill (i : Interpreter) (pieces : List Script.Piece) : List Text :=
  pieces.flatMap (Script.fill i.arguments)

def badDescriptor (fd : Nat) : Text := Text.ofNat fd ++ ": Bad file descriptor"

def echo (i : Interpreter) (line : Nat) (words : List Text) (onto : Nat) (w : World) :
    Nat × World :=
  if (i.process.opening? onto).isNone then (2, i.complain line (badDescriptor onto) w)
  else
    match i.process.write w onto (Utf8.encode (Text.spaced words ++ "\n")) with
    | (none, w) => (0, w)
    | (some _, w) => (1, i.complain line "echo: echo: I/O error" w)

def announce (i : Interpreter) (ending : Ending) (w : World) : World :=
  match ending with
  | .exited _ => w
  | .killed signal =>
    match Signal.obituary signal with
    | some text => i.process.say w 2 (Utf8.encode (text ++ "\n"))
    | none => w

def call (i : Interpreter) (line : Nat) (command : Text) (words : List Text) (onto : Nat)
    (w : World) : Nat × World :=
  match if onto = 1 then .ok i.process else i.process.copy onto 1 with
  | .error _ => (2, i.complain line (badDescriptor onto) w)
  | .ok child =>
    match i.launch command words child w with
    | .error refusal =>
      (refusal.code, i.complain line (command ++ ": " ++ refusal.message) w)
    | .ok done => (done.1.status, i.announce done.1 done.2)

def act (i : Interpreter) (step : Script.Step) (last : Nat) (w : World) : Progress × World :=
  match step.action with
  | .exit code => (.ends (.ofCode (code.getD last)), w)
  | .badExit operand =>
    (.ends (.ofCode 2), i.complain step.line ("exit: Illegal number: " ++ operand) w)
  | .kill signal =>
    (if Signal.endsProgram signal then .ends (.killed signal) else .goesOn 0, w)
  | .result code => (.goesOn code, w)
  | .echo pieces onto =>
    let done := i.echo step.line (i.fill pieces) onto w
    (.goesOn done.1, done.2)
  | .call command pieces onto =>
    let done := i.call step.line command (i.fill pieces) onto w
    (.goesOn done.1, done.2)

def steps (i : Interpreter) : List Script.Step → Nat → World → Progress × World
  | [], code, w => (.goesOn code, w)
  | step :: rest, last, w =>
    let done := i.act step last w
    match done.1 with
    | .ends ending => (.ends ending, done.2)
    | .goesOn code => i.steps rest code done.2

def conclude (done : Progress × World) : Ending × World :=
  match done.1 with
  | .ends ending => (ending, done.2)
  | .goesOn code => (.ofCode code, done.2)

def text (i : Interpreter) (script : Text) (w : World) : Ending × World :=
  conclude (i.steps (Script.steps 1 script) 0 w)

/-- Runs what can be read, and what has been added when that is done. The first
number limits how often this is tried; the others are the bytes and lines read
before, and the last code. A script whose last line is not finished has ended. -/
def reading (i : Interpreter) (read : Nat → World → Bytes × World) :
    Nat → Nat → Nat → Nat → World → Ending × World
  | 0, _, _, code, w => (.ofCode code, w)
  | tries + 1, taken, lines, code, w =>
    let more := read taken w
    if more.1.isEmpty then (.ofCode code, more.2)
    else
      let done := i.steps (Script.steps (lines + 1) (Utf8.decode more.1)) code more.2
      match done.1 with
      | .ends ending => (ending, done.2)
      | .goesOn code =>
        if more.1.getLast? = some Input.newlineByte then
          i.reading read tries (taken + more.1.length)
            (lines + more.1.count Input.newlineByte) code done.2
        else (.ofCode code, done.2)

def patience : Nat := 1000

def file (i : Interpreter) (l : Location) (w : World) : Ending × World :=
  let read (taken : Nat) (w : World) : Bytes × World :=
    match w.tree.find? l with
    | some (.file _ content) => (content.drop taken, w)
    | _ => ([], w)
  i.reading read patience 0 0 0 w

def input (i : Interpreter) (w : World) : Ending × World :=
  let read (_ : Nat) (w : World) : Bytes × World :=
    match i.process.read w 0 none with
    | .ok read => read
    | .error _ => ([], w)
  i.reading read patience 0 0 0 w

def run (launch : Launcher) (name : Text) (arguments : List Text) (p : Process) (w : World) :
    Ending × World :=
  match arguments with
  | [] => input ⟨launch, name, [], p⟩ w
  | path :: rest =>
    if path = "-c" then
      match rest with
      | [] => (.ofCode 2, Program.complain (place name 0) "-c requires an argument" p w)
      | script :: others => text ⟨launch, others.headD name, others.drop 1, p⟩ script w
    else
      match w.tree.locate p.directory path with
      | .error _ =>
        (.ofCode 2,
          Program.complain (place name 0) ("cannot open " ++ path ++ ": No such file") p w)
      | .ok l =>
        match w.allows .read l with
        | .error e =>
          (.ofCode 2, Program.complain (place name 0)
            ("cannot open " ++ path ++ ": " ++ Program.reason e) p w)
        | .ok () => file ⟨launch, path, rest, p⟩ l w

end Interpreter

end TinyShell
