import TinyShell.Machine.Signal
import TinyShell.Statement.Operator
import TinyShell.Text.Blank

/-!
# Scripts

The small language of the scripts that programs are made of here: lines of
`echo`, `exit`, `kill` and calls of other programs, separated by newlines or
semicolons, with double quotes, comments and the merging of one descriptor
into another.
-/

set_option autoImplicit false

namespace TinyShell.Script

inductive Piece
  | text (t : Text)
  | arguments
deriving DecidableEq, Repr

inductive Action
  | echo (words : List Piece) (onto : Nat)
  | exit (code : Option Nat)
  | kill (signal : Nat)
  | badExit (operand : Text)
  | result (code : Nat)
  | call (name : Text) (words : List Piece) (onto : Nat)
deriving DecidableEq, Repr

structure Step where
  line : Nat
  action : Action
deriving DecidableEq, Repr

def commands (line : Nat) : Bool → Text → Text → List (Nat × Text)
  | _, done, [] => [(line, done)]
  | true, done, c :: rest => commands line (c != '"') (done ++ [c]) rest
  | false, done, c :: rest =>
    if c = '\n' then (line, done) :: commands (line + 1) false [] rest
    else if c = ';' then (line, done) :: commands line false [] rest
    else commands line (c == '"') (done ++ [c]) rest

def words : Bool → Text → Text → List Text
  | _, done, [] => if done.isEmpty then [] else [done]
  | true, done, c :: rest => words (c != '"') (done ++ [c]) rest
  | false, done, c :: rest =>
    if Text.isBlank c then
      if done.isEmpty then words false [] rest else done :: words false [] rest
    else words (c == '"') (done ++ [c]) rest

def bare (word : Text) : Text := word.filter (· ≠ '"')

def piece (word : Text) : Piece :=
  if word = "\"$@\"" then .arguments else .text (bare word)

def ontoOf (word : Text) : Option Nat :=
  match Operator.merge? word with
  | some (source, destination) =>
    if source.getD 1 = 1 then some (destination.getD 1) else some 1
  | none => none

def isNumber (word : Text) : Bool := !word.isEmpty && word.all Char.isDigit

def signalOf (operands : List Text) : Option Nat :=
  match operands with
  | [] => none
  | ('-' :: number) :: _ =>
    if isNumber number && Text.value number ≤ Signal.highest then some (Text.value number)
    else none
  | _ => some Signal.customary

def action (parts : List Text) : Option Action :=
  match parts with
  | [] => none
  | name :: rest =>
    let merges := rest.filterMap ontoOf
    let plain := rest.filter fun word => (ontoOf word).isNone
    let call : Action := .call (bare name) (plain.map piece) (merges.getLast?.getD 1)
    if name.head? = some '#' then none
    else if name = "echo" then some (.echo (plain.map piece) (merges.getLast?.getD 1))
    else if name = "exit" then
      match plain with
      | [] => some (.exit none)
      | code :: _ =>
        some (if isNumber code then .exit (some (Text.value code)) else .badExit code)
    else if name = "true" ∨ name = ":" then some (.result 0)
    else if name = "false" then some (.result 1)
    else if name = "kill" then some ((signalOf plain).elim call .kill)
    else some call

def steps (line : Nat) (text : Text) : List Step :=
  (commands line false [] text).filterMap fun (line, command) =>
    (action (words false [] command)).map (Step.mk line)

def fill (arguments : List Text) : Piece → List Text
  | .text t => [t]
  | .arguments => arguments

end TinyShell.Script
