import TinyShell.Machine.Child

/-!
# Executing a file

A name with a slash is a path. Any other name is searched for in the
directories of the search path, in order; without a search path the standard
one is used. What is missing or may not be executed is passed over, and any
other obstacle ends the search.

What a file does once it is executed is up to an executor, so that what is
said about the shell does not depend on it.
-/

set_option autoImplicit false

namespace TinyShell

inductive Image
  | program (p : Program)
  | script
deriving DecidableEq, Repr

structure Call where
  path : Text
  name : Text
  arguments : List Text
  search : Option Text
deriving DecidableEq, Repr

abbrev Executor := Image → Call → Process → World → Ending × World

namespace Image

def ofNode : Node → Option Image
  | .directory => none
  | .file mode content => if (Node.file mode content).isExecutable then some script else none
  | .program p => some (program p)

end Image

namespace Execution

def standardPath : Text := "/bin:/usr/bin"

/-- The directories of a search path. One that is longer than any path can be
counts as the current directory, and as none at the end. -/
def directories : List Text → List Text
  | [] => []
  | [last] => if Path.longestPath < Utf8.size last then [] else [last]
  | directory :: rest =>
    (if Path.longestPath < Utf8.size directory then [] else directory) :: directories rest

def candidates (search : Option Text) (name : Text) : List Text :=
  if name.isEmpty then []
  else if name.contains '/' then [name]
  else if Path.longestName < Utf8.size name then []
  else
    (directories (Text.splitAll ':' (search.getD standardPath))).map fun directory =>
      if directory.isEmpty then name else directory ++ '/' :: name

def imageAt (p : Process) (w : World) (path : Text) : Except Errno (Location × Image) :=
  match w.tree.locate p.directory path with
  | .error e => .error e
  | .ok l =>
    match (w.tree.find? l).bind Image.ofNode with
    | none => .error .accessDenied
    | some image => if p.writes w l then .error .textBusy else .ok (l, image)

def passesOver (e : Errno) : Bool :=
  e = .noEntry || e = .notDirectory || e = .accessDenied

def firstOf (p : Process) (w : World) : List Text → Option (Text × Location × Image)
  | [] => none
  | path :: rest =>
    match imageAt p w path with
    | .ok (l, image) => some (path, l, image)
    | .error e => if passesOver e then firstOf p w rest else none

def find? (search : Option Text) (p : Process) (w : World) (name : Text) :
    Option (Text × Location × Image) :=
  firstOf p w (candidates search name)

def replace? (execute : Executor) (search : Option Text) (p : Process) (w : World) (name : Text)
    (arguments : List Text) : Option (Ending × World) :=
  match find? search p w name with
  | none => none
  | some (path, _, image) => some (execute image ⟨path, name, arguments, search⟩ p.executing w)

end Execution

end TinyShell
