import TinyShell.Statement.Basic
import TinyShell.Statement.Operator
import TinyShell.Token.Queue

/-!
# Reading statements

A statement is read one token at a time by a stack machine. A level of the
stack is a scope: the whole input, or a pair of parentheses; it holds what
stands to the left of the operators that still wait for their right side.
Nothing is read past the token that ends a statement, so a statement can be
run before the next line is asked for.

Binding, tightest first: `!`, redirections, `|`, then `&&` and `||` alike;
pipelines nest to the right, `&&` and `||` to the left.
-/

set_option autoImplicit false

namespace TinyShell

inductive Connective
  | and
  | or
deriving DecidableEq, Repr

namespace Connective

def ofKind? : TokenKind → Option Connective
  | .and => some .and
  | .or => some .or
  | _ => none

def join : Connective → Statement → Statement → Statement
  | and => .and
  | or => .or

end Connective

inductive Arrow
  | overwrite (descriptor : Option Nat)
  | append (descriptor : Option Nat)
  | mergeOutput
  | mergeAppend
  | input
deriving DecidableEq, Repr

namespace Arrow

def value (n : Nat) : Expression := .value n

def onto (target : Expression) : Arrow → Redirection
  | overwrite fd => .overwrite (fd.map value) target
  | append fd => .append (fd.map value) target
  | mergeOutput => .mergeOutput target
  | mergeAppend => .mergeAppend target
  | input => .input target

end Arrow

namespace Redirection

def mergeOf (source destination : Option Nat) : Redirection :=
  let given (fd : Option Nat) : Expression := .value ((fd.map Int.ofNat).getD unspecified)
  .mergeStream (given source) (given destination)

def around (r : Redirection) : Option Statement → Statement
  | some left => .redirect r left
  | none => .bare r

end Redirection

/-- One scope: the statements before the last separator, the left side of a
connective, the left sides of `|`, and how many `!` stand before the operand.
The latest comes first. -/
structure Level where
  before : List Statement
  joined : Option (Connective × Statement)
  piped : List Statement
  negations : Nat
deriving Repr

namespace Level

def empty : Level := ⟨[], none, [], 0⟩

def negate (level : Level) (s : Statement) : Statement :=
  Nat.repeat Statement.not level.negations s

def closePipeline (level : Level) (s : Statement) : Statement :=
  level.piped.foldl (fun right left => .pipeline left right) s

def closeLogical (level : Level) (s : Statement) : Statement :=
  match level.joined with
  | none => level.closePipeline s
  | some (connective, left) => connective.join left (level.closePipeline s)

def close (level : Level) (s : Statement) : Statement :=
  level.before.foldl (fun right left => .sequence left right) s

def separate (level : Level) (s : Statement) : Level :=
  ⟨s :: level.before, none, [], 0⟩

end Level

inductive Stage
  | chain (spread : Bool)
  | operand
  | words (head : Token) (latest : List Token)
  | target (arrow : Arrow) (left : Option Statement)
  | follow (s : Statement)
  | separated (s : Statement)
  | groupSeparated (s : Statement)
deriving Repr

inductive Reader
  | idle
  | inside (stage : Stage) (level : Level) (outer : List Level)
deriving Repr

inductive Verdict
  | shift (reader : Reader)
  | accept (statement : Option Statement)
  /-- The token cannot stand there. `taken` says whether it is used up. -/
  | reject (expected : Text) (taken : Bool)
deriving Repr

namespace Reader

def expectCommand : Text := "a command"
def expectFile : Text := "a file name"
def expectOperator : Text := "a redirection operator"
def expectSeparator : Text := "';' or newline"
def expectParen : Text := "')'"

def onOperand (level : Level) (outer : List Level) (t : Token) : Verdict :=
  match t.kind with
  | .command | .string => .shift (.inside (.words t []) level outer)
  | .not =>
    .shift (.inside .operand { level with negations := level.negations + 1 } outer)
  | .leftParen => .shift (.inside (.chain true) Level.empty (level :: outer))
  | _ => .reject expectCommand true

def awaitTarget (arrow : Arrow) (left : Option Statement) (level : Level)
    (outer : List Level) : Verdict :=
  .shift (.inside (.target arrow left) level outer)

def onRedirection (left : Option Statement) (level : Level) (outer : List Level) (t : Token) :
    Option Verdict :=
  match t.kind with
  | .overwrite | .append =>
    match Operator.output? t.text with
    | none => some (.reject expectOperator true)
    | some (fd, false) => some (awaitTarget (.overwrite fd) left level outer)
    | some (fd, true) => some (awaitTarget (.append fd) left level outer)
  | .mergeOutput => some (awaitTarget .mergeOutput left level outer)
  | .mergeAppend => some (awaitTarget .mergeAppend left level outer)
  | .input => some (awaitTarget .input left level outer)
  | .mergeStream =>
    match Operator.merge? t.text with
    | none => some (.reject expectOperator true)
    | some (source, destination) =>
      let s := (Redirection.mergeOf source destination).around left
      some (.shift (.inside (.follow s) level outer))
  | _ => none

def onChain (level : Level) (outer : List Level) (t : Token) : Verdict :=
  (onRedirection none level outer t).getD (onOperand level outer t)

def closeGroup (s : Statement) (level : Level) (outer : List Level) : Verdict :=
  .shift (.inside (.follow (level.negate s)) { level with negations := 0 } outer)

def onScope (s : Statement) (level : Level) (outer : List Level) (t : Token) : Verdict :=
  match outer with
  | [] =>
    match t.kind with
    | .newline | .endOfInput => .accept (some (level.close s))
    | .semicolon => .shift (.inside (.separated s) level [])
    | _ => .reject expectSeparator true
  | parent :: others =>
    match t.kind with
    | .rightParen => closeGroup (level.close s) parent others
    | .semicolon | .newline => .shift (.inside (.groupSeparated s) level outer)
    | _ => .reject expectParen false

def onFollow (s : Statement) (level : Level) (outer : List Level) (t : Token) : Verdict :=
  match onRedirection (some s) level outer t with
  | some verdict => verdict
  | none =>
    if t.kind = .pipe then
      .shift (.inside (.chain true) { level with piped := s :: level.piped } outer)
    else
      match Connective.ofKind? t.kind with
      | some connective =>
        let joined := some (connective, level.closeLogical s)
        .shift (.inside (.chain true) { level with joined := joined, piped := [] } outer)
      | none => onScope (level.closeLogical s) level outer t

def onStage (stage : Stage) (level : Level) (outer : List Level) (t : Token) : Verdict :=
  match stage with
  | .chain spread =>
    if spread && t.kind == .newline then .shift (.inside stage level outer)
    else onChain level outer t
  | .operand => onOperand level outer t
  | .words head latest =>
    if t.kind.isWord then .shift (.inside (.words head (t :: latest)) level outer)
    else
      let s := level.negate (.atom (Expression.ofWords head latest))
      onFollow s { level with negations := 0 } outer t
  | .target arrow left =>
    if t.kind.isWord then
      let s := (arrow.onto (Expression.word t)).around left
      .shift (.inside (.follow s) level outer)
    else .reject expectFile true
  | .follow s => onFollow s level outer t
  | .separated s =>
    match t.kind with
    | .newline | .endOfInput => .accept (some (level.close (.closed s)))
    | _ => onChain (level.separate s) outer t
  | .groupSeparated s =>
    match t.kind, outer with
    | .newline, _ => .shift (.inside stage level outer)
    | .rightParen, parent :: others => closeGroup (level.close s) parent others
    | _, _ => onChain (level.separate s) outer t

def feed (reader : Reader) (t : Token) : Verdict :=
  match reader with
  | .idle =>
    match t.kind with
    | .newline | .semicolon => .shift .idle
    | .endOfInput => .accept none
    | _ => onChain Level.empty [] t
  | .inside stage level outer => onStage stage level outer t

def run (reader : Reader) (q : TokenQueue) : Except Failure (Option Statement) × TokenQueue :=
  match _h : q.next with
  | (.error failure, q) => (.error failure, q)
  | (.ok t, q) =>
    match reader.feed t with
    | .shift reader => run reader q
    | .accept statement => (.ok statement, q)
    | .reject expected taken =>
      (.error (.grammar t.position t.kind expected), if taken then q else q.putBack t)
termination_by q.size
decreasing_by exact TokenQueue.size_next_lt _h

end Reader

namespace TokenQueue

def read (q : TokenQueue) : Except Failure (Option Statement) × TokenQueue :=
  if q.exhausted then (.ok none, q) else Reader.run .idle q

end TokenQueue

end TinyShell
