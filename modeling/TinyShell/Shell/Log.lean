import TinyShell.Text.Basic

/-!
# Log records

A record has a level, and a logger shows it if its own level admits it. Shown
records start with the name of the shell, which may be coloured by level.
-/

set_option autoImplicit false

namespace TinyShell

inductive Severity
  | error
  | warning
  | info
  | debug
  | trace
deriving DecidableEq, Repr

namespace Severity

def rank : Severity → Nat
  | error => 1
  | warning => 2
  | info => 3
  | debug => 4
  | trace => 5

end Severity

abbrev Threshold := Option Severity

structure Logger where
  name : Text
  colored : Bool
  threshold : Threshold
deriving Repr

namespace Logger

def admits (logger : Logger) (severity : Severity) : Bool :=
  match logger.threshold with
  | none => false
  | some least => severity.rank ≤ least.rank

def red : Text := "\x1b[38;5;1m"

def yellow : Text := "\x1b[38;5;3m"

def plain : Text := "\x1b[39m"

def color : Severity → Text
  | .error => red
  | .warning => yellow
  | _ => plain

def line (logger : Logger) (severity : Severity) (message : Text) : Text :=
  let name :=
    if logger.colored then color severity ++ logger.name ++ plain else logger.name
  name ++ ": " ++ message ++ "\n"

def record (logger : Logger) (severity : Severity) (message : Text) : Text :=
  if logger.admits severity then logger.line severity message else []

end Logger

end TinyShell
