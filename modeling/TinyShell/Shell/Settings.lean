import TinyShell.Shell.Log

/-!
# Settings

What a shell is started with. The prompt is made from the name unless it is
given, and a shell is interactive if its input comes from a terminal.
-/

set_option autoImplicit false

namespace TinyShell

structure Terminals where
  input : Bool
  output : Bool
  errors : Bool
deriving DecidableEq, Repr

structure Settings where
  name : Text
  prompt : Text
  color : Bool
  threshold : Threshold
  interactive : Bool
deriving Repr

namespace Settings

def standardName : Text := "parsnip"

def version : Text := "0.1.0"

def named (name : Text) (terminals : Terminals) : Settings :=
  ⟨name, name ++ "$ ", true, some .warning, terminals.input⟩

def quiet (s : Settings) : Settings := { s with threshold := some .error }

def verbose (s : Settings) : Settings := { s with threshold := some .debug }

def colorless (s : Settings) : Settings := { s with color := false }

def prompting (prompt : Text) (s : Settings) : Settings := { s with prompt := prompt }

def logger (s : Settings) (terminals : Terminals) : Logger :=
  ⟨s.name, s.color && terminals.errors, s.threshold⟩

end Settings

end TinyShell
