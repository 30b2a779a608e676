import TinyShell.Machine.Tree

/-!
# Paths

A path is followed name by name from the root or from the current directory.
The first name that cannot be followed decides the error.
-/

set_option autoImplicit false

namespace TinyShell

namespace Path

def longestName : Nat := 255

def longestPath : Nat := 4095

def here : Text := ['.']

def above : Text := ['.', '.']

def names (path : Text) : List Text := (Text.splitAll '/' path).filter fun name => !name.isEmpty

def isAbsolute (path : Text) : Bool := path.head? == some '/'

def endsWithSlash (path : Text) : Bool := path.getLast? == some '/'

def start (directory : Location) (path : Text) : Location :=
  if isAbsolute path then [] else directory

def check (path : Text) : Except Errno Unit :=
  if Text.hasNul path then .error .invalidArgument
  else if path.isEmpty then .error .noEntry
  else if longestPath < Utf8.size path then .error .nameTooLong
  else .ok ()

def join (directory name : Text) : Text :=
  if directory.isEmpty || endsWithSlash directory then directory ++ name
  else directory ++ '/' :: name

def location (path : Text) : Location := names path

end Path

namespace Tree

def step (t : Tree) (l : Location) (name : Text) : Except Errno Location :=
  if !t.isDirectory l then .error .notDirectory
  else if name = Path.here then .ok l
  else if name = Path.above then .ok l.dropLast
  else if Path.longestName < Utf8.size name then .error .nameTooLong
  else if (t.find? (l ++ [name])).isSome then .ok (l ++ [name])
  else .error .noEntry

def walk (t : Tree) : Location → List Text → Except Errno Location
  | l, [] => .ok l
  | l, name :: rest =>
    match t.step l name with
    | .ok next => t.walk next rest
    | .error e => .error e

def locate (t : Tree) (directory : Location) (path : Text) : Except Errno Location :=
  match Path.check path with
  | .error e => .error e
  | .ok () =>
    match t.walk (Path.start directory path) (Path.names path) with
    | .error e => .error e
    | .ok l =>
      if Path.endsWithSlash path && !t.isDirectory l then .error .notDirectory else .ok l

def placeName (t : Tree) (l : Location) (name : Text) (slash : Bool) : Except Errno Location :=
  if !t.isDirectory l then .error .notDirectory
  else if slash then .error .isDirectory
  else if Path.longestName < Utf8.size name then .error .nameTooLong
  else
    match t.find? (l ++ [name]) with
    | some .directory => .error .isDirectory
    | some (.program _) => .error .readOnly
    | _ => .ok (l ++ [name])

def place (t : Tree) (directory : Location) (path : Text) : Except Errno Location :=
  match Path.check path with
  | .error e => .error e
  | .ok () =>
    let names := Path.names path
    match names.getLast? with
    | none => .error .isDirectory
    | some name =>
      if name = Path.here ∨ name = Path.above then
        match t.walk (Path.start directory path) names with
        | .error e => .error e
        | .ok _ => .error .isDirectory
      else
        match t.walk (Path.start directory path) names.dropLast with
        | .error e => .error e
        | .ok l => t.placeName l name (Path.endsWithSlash path)

def isExecutable (t : Tree) (directory : Location) (path : Text) : Bool :=
  match t.locate directory path with
  | .ok l => (t.find? l).any Node.isExecutable
  | .error _ => false

end Tree

end TinyShell
