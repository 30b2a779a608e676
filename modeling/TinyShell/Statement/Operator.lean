import TinyShell.Text.Basic

/-!
# Texts of redirection operators

An output operator is a run of digits before one or two arrows; a merge is two
runs of digits around an arrow and an ampersand. Either run may be empty, and
a descriptor must fit in 63 bits.
-/

set_option autoImplicit false

namespace TinyShell.Operator

def largest : Nat := 0x7FFFFFFFFFFFFFFF

def descriptor? (text : Text) : Option (Option Nat × Text) :=
  let digits := text.takeWhile Char.isDigit
  let rest := text.dropWhile Char.isDigit
  if digits.isEmpty then some (none, rest)
  else if Text.value digits ≤ largest then some (some (Text.value digits), rest)
  else none

def output? (text : Text) : Option (Option Nat × Bool) :=
  match descriptor? text with
  | some (fd, ['>']) => some (fd, false)
  | some (fd, ['>', '>']) => some (fd, true)
  | _ => none

def merge? (text : Text) : Option (Option Nat × Option Nat) :=
  match descriptor? text with
  | some (source, '>' :: '&' :: rest) =>
    match descriptor? rest with
    | some (destination, []) => some (source, destination)
    | _ => none
  | _ => none

end TinyShell.Operator
