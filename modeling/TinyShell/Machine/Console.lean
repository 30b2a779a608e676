import TinyShell.Machine.Installation

/-!
# Consoles

A machine to run a shell on: the installed programs, and three files without a
path that stand for its input, its output and its errors.
-/

set_option autoImplicit false

namespace TinyShell.Console

def location (descriptor : Nat) : Location := [[], Text.ofNat descriptor]

def input : Location := location 0

def output : Location := location 1

def errors : Location := location 2

def install (bytes : Bytes) (t : Tree) : Tree :=
  ((t.put input (.file World.newFileMode bytes)).put output (.file World.newFileMode [])).put
    errors (.file World.newFileMode [])

def world (t : Tree) (bytes : Bytes) : World :=
  ⟨install bytes t,
    [⟨.file input, 0, true, false, false, none⟩, ⟨.file output, 0, false, true, true, none⟩,
      ⟨.file errors, 0, false, true, true, none⟩],
    [], .full⟩

def process (pid : Nat) (directory : Location) : Process :=
  ⟨pid, directory, ⟨[some ⟨0, false⟩, some ⟨1, false⟩, some ⟨2, false⟩]⟩, .initial, []⟩

def written (w : World) (l : Location) : Bytes :=
  match w.tree.find? l with
  | some (.file _ content) => content
  | _ => []

end TinyShell.Console
