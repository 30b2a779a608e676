import TinyShell.Machine.Interpreter

/-!
# Installed programs

Where the programs are found, and the executor that runs them. A file that is
no program is a script.
-/

set_option autoImplicit false

namespace TinyShell

namespace Program

def installed : List (Text × Program) :=
  [("echo", echo), ("cat", cat), ("true", succeed), ("false", fail), ("pwd", pwd), ("sh", sh)]

def run (program : Program) (launch : Launcher) (name : Text) (arguments : List Text)
    (p : Process) (w : World) : Ending × World :=
  let done (r : Nat × World) : Ending × World := (.ofCode r.1, r.2)
  match program with
  | echo => done (print name (Text.spaced arguments ++ "\n") p w)
  | cat => done (if arguments.isEmpty then catInput name p w else catAll name arguments p w)
  | succeed => (.ofCode 0, w)
  | fail => (.ofCode 1, w)
  | pwd => done (print name (p.directory.path ++ "\n") p w)
  | sh => Interpreter.run launch name arguments p w

end Program

namespace Interpreter

def standardPath : Text := "/usr/local/sbin:/usr/local/bin:/usr/sbin:/usr/bin:/sbin:/bin"

/-- One more obstacle to running a name. A file that was searched for and may
not be executed does not count as found. -/
def refuse (name : Text) (r : Refusal) (e : Errno) : Refusal :=
  if e = .noEntry ∨ e = .notDirectory then r
  else ⟨e, r.found || e = .textBusy || (e = .accessDenied && name.contains '/')⟩

def reach (p : Process) (w : World) (name : Text) (r : Refusal) :
    List Text → Except Refusal (Text × Image)
  | [] => .error r
  | path :: rest =>
    match Execution.imageAt p w path with
    | .ok (_, image) => .ok (path, image)
    | .error e => reach p w name (refuse name r e) rest

def launcher (execute : Executor) (search : Option Text) : Launcher :=
  fun name arguments p w =>
    match reach p w name ⟨.noEntry, false⟩
        (Execution.candidates (search.getD standardPath) name) with
    | .error refusal => .error refusal
    | .ok (path, image) => .ok (execute image ⟨path, name, arguments, search⟩ p.executing w)

end Interpreter

namespace Image

def deepest : Nat := 100

def runWithin : Nat → Executor
  | 0, _, call, p, w => (.ofCode 2, Program.complain call.name "Cannot fork" p w)
  | depth + 1, program it, call, p, w =>
    it.run (Interpreter.launcher (runWithin depth) call.search) call.name call.arguments p w
  | depth + 1, script, call, p, w =>
    Interpreter.run (Interpreter.launcher (runWithin depth) call.search) call.name
      (call.path :: call.arguments) p w

def run : Executor := runWithin deepest

end Image

namespace World

def standardDirectories : List Location := [["dev"], ["etc"], ["home"], ["root"], ["tmp"], ["var"]]

def standardTree : Tree :=
  let add (t : Tree) (directory : Location) : Tree :=
    Program.installed.foldl
      (fun t entry => t.install (directory ++ [entry.1]) (.program entry.2)) t
  let directories : Tree := ⟨standardDirectories.map fun l => (l, .directory)⟩
  add (add directories ["usr", "bin"]) ["bin"]

end World

end TinyShell
