import TinyShell.Machine.Execution
import TinyShell.Shell.Settings

/-!
# Environment

What commands consult besides their words: the home directory, the search
path, what programs do, and how the shell was started.
-/

set_option autoImplicit false

namespace TinyShell

structure Environment where
  home : Option Text
  search : Option Text
  execute : Executor
  interactive : Bool
  logger : Logger

namespace Environment

def homeOf (user inherited : Option Text) : Option Text := user <|> inherited

def resolve (env : Environment) (t : Tree) (directory : Location) (name : Text) : Option Text :=
  if name.isEmpty then none
  else if name.contains '/' then
    if t.isExecutable directory name then some name else none
  else
    match env.search with
    | none => none
    | some search =>
      ((Text.splitAll ':' search).map fun d => Path.join d name).find? fun path =>
        t.isExecutable directory path

end Environment

end TinyShell
