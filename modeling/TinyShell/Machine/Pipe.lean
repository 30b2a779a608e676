import TinyShell.Failure
import TinyShell.Machine.Process

/-!
# Pipes

A pipe has two ends, each a descriptor of the process that made it until it is
closed there. Both ends close themselves when a program is executed; a copy on
another descriptor is what a program is handed. A pipe holds whatever is written
to it, and has a reader for as long as anyone writes.
-/

set_option autoImplicit false

namespace TinyShell

structure Pipe where
  reader : Option Nat
  writer : Option Nat
deriving DecidableEq, Repr

namespace Pipe

def create (p : Process) (w : World) : Pipe × Process × World :=
  let number := w.pipes.length
  let (w, readEnd) := { w with pipes := w.pipes ++ [[]] }.opened (.pipe number) .read
  let (w, writeEnd) := w.opened (.pipe number) .append
  let reader := p.descriptors.lowestFree
  let descriptors := p.descriptors.set reader (some ⟨readEnd, true⟩)
  let writer := descriptors.lowestFree
  let descriptors := descriptors.set writer (some ⟨writeEnd, true⟩)
  (⟨some reader, some writer⟩, { p with descriptors := descriptors }, w)

def closeEnd (fd : Option Nat) (p : Process) : Process :=
  match fd with
  | none => p
  | some fd => p.close fd

def closeReader (pipe : Pipe) (p : Process) : Pipe × Process :=
  ({ pipe with reader := none }, closeEnd pipe.reader p)

def closeWriter (pipe : Pipe) (p : Process) : Pipe × Process :=
  ({ pipe with writer := none }, closeEnd pipe.writer p)

def close (pipe : Pipe) (p : Process) : Pipe × Process :=
  let (pipe, p) := pipe.closeReader p
  pipe.closeWriter p

def redirectEnd (fd : Option Nat) (target : Int) (p : Process) : Except Failure Process :=
  match fd with
  | none => .ok p
  | some fd =>
    match p.copy fd target with
    | .ok p => .ok p
    | .error e => .error (.systemCall "dup2" e)

def redirectReader (pipe : Pipe) (target : Int) (p : Process) : Except Failure Process :=
  redirectEnd pipe.reader target p

def redirectWriter (pipe : Pipe) (target : Int) (p : Process) : Except Failure Process :=
  redirectEnd pipe.writer target p

def send (pipe : Pipe) (flag : Bool) (p : Process) (w : World) : World :=
  match pipe.writer with
  | none => w
  | some fd => p.say w fd [if flag then 1 else 0]

def receive (pipe : Pipe) (p : Process) (w : World) : Option Bool × World :=
  match pipe.reader with
  | none => (none, w)
  | some fd =>
    match p.read w fd (some 1) with
    | .ok (b :: _, w) => (some (b != 0), w)
    | .ok ([], w) => (none, w)
    | .error _ => (none, w)

def isRead (p : Process) (w : World) (id : Nat) : Bool :=
  (List.range p.descriptors.slots.length).any fun fd =>
    match (p.opening? fd).bind (w.openings[·]?), w.openings[id]? with
    | some other, some opening => other.readable && other.channel == opening.channel
    | _, _ => false

def write (pipe : Pipe) (bytes : Bytes) (p : Process) (w : World) : Option Bool × World :=
  match pipe.writer.bind p.opening?, pipe.writer with
  | some id, some fd => if isRead p w id then (some true, p.say w fd bytes) else (some false, w)
  | _, _ => (none, w)

end Pipe

end TinyShell
