import TinyShell.Token.Basic

/-!
# Statements

The tree of a statement. Words are expanded in place when a command runs, and
a command remembers its outcome, so that evaluating the same tree again runs
nothing twice.
-/

set_option autoImplicit false

namespace TinyShell

abbrev Result := Int

namespace Result

def success : Result := 1

def failure : Result := 0

end Result

structure Memo where
  result : Result
  status : Nat
deriving DecidableEq, Repr

structure Invocation where
  head : Token
  arguments : List Token
  memo : Option Memo
deriving DecidableEq, Repr

namespace Invocation

def words (i : Invocation) : List Token := i.head :: i.arguments

def mapWords (f : Text → Text) (i : Invocation) : Invocation :=
  let expand (t : Token) : Token := { t with text := f t.text }
  { i with head := expand i.head, arguments := i.arguments.map expand }

end Invocation

inductive Expression
  | command (invocation : Invocation)
  | string (invocation : Invocation)
  | value (number : Int)
deriving DecidableEq, Repr

namespace Expression

def word (t : Token) : Expression :=
  if t.kind = .string then string ⟨t, [], none⟩ else command ⟨t, [], none⟩

def ofWords (head : Token) (latest : List Token) : Expression :=
  if latest.isEmpty then word head else command ⟨head, latest.reverse, none⟩

def text : Expression → Text
  | command i | string i => Text.spaced (i.words.map Token.text)
  | value n => Text.ofInt n

def mapWords (f : Text → Text) : Expression → Expression
  | command i => command (i.mapWords f)
  | string i => string (i.mapWords f)
  | value n => value n

end Expression

def unspecified : Int := -1

inductive Redirection
  | overwrite (descriptor : Option Expression) (target : Expression)
  | append (descriptor : Option Expression) (target : Expression)
  | mergeOutput (target : Expression)
  | mergeAppend (target : Expression)
  | mergeStream (source destination : Expression)
  | input (target : Expression)
deriving DecidableEq, Repr

namespace Redirection

def target? : Redirection → Option Expression
  | overwrite _ target | append _ target | mergeOutput target | mergeAppend target
  | input target => some target
  | mergeStream _ _ => none

def mapTarget (f : Expression → Expression) : Redirection → Redirection
  | overwrite fd target => overwrite fd (f target)
  | append fd target => append fd (f target)
  | mergeOutput target => mergeOutput (f target)
  | mergeAppend target => mergeAppend (f target)
  | mergeStream source destination => mergeStream source destination
  | input target => input (f target)

end Redirection

inductive Statement
  | sequence (left right : Statement)
  /-- A statement closed by a semicolon with nothing after it. -/
  | closed (left : Statement)
  | and (left right : Statement)
  | or (left right : Statement)
  | not (inner : Statement)
  | pipeline (left right : Statement)
  | redirect (redirection : Redirection) (left : Statement)
  /-- A redirection of nothing, done for its effect on the files. -/
  | bare (redirection : Redirection)
  | atom (expression : Expression)
deriving DecidableEq, Repr

end TinyShell
