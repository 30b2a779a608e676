import TinyShell.Shell.State
import TinyShell.Statement.Render

/-!
# Wiring of redirections

A redirection becomes a wiring: a file to be opened onto descriptors, or the
copy of one descriptor onto another. A file is checked before anything is
forked for it, which creates a missing output file.
-/

set_option autoImplicit false

namespace TinyShell

inductive Wiring
  | file (path : Text) (mode : OpenMode) (onto : List Int)
  | merge (source destination : Int)
deriving DecidableEq, Repr

namespace Wiring

def standardInput : Int := 0

def standardOutput : Int := 1

def standardError : Int := 2

def inRange (value : Int) : Bool := -0x80000000 ≤ value && value < 0x80000000

def descriptor (standard : Int) : Option Expression → Except Complaint Int
  | none => .ok standard
  | some (.value n) =>
    if n = unspecified then .ok standard
    else if inRange n then .ok n
    else .error (.descriptorRange n)
  | some other => .error (.notDescriptor other.text)

def output (path : Text) (mode : OpenMode) (fd : Option Expression) : Except Complaint Wiring :=
  match descriptor standardOutput fd with
  | .ok fd => .ok (file path mode [fd])
  | .error complaint => .error complaint

def ofRedirection : Redirection → Except Complaint Wiring
  | .overwrite fd target => output target.text .overwrite fd
  | .append fd target => output target.text .append fd
  | .mergeOutput target => .ok (file target.text .overwrite [standardOutput, standardError])
  | .mergeAppend target => .ok (file target.text .append [standardOutput, standardError])
  | .input target => .ok (file target.text .read [standardInput])
  | .mergeStream source destination =>
    match descriptor standardError (some source) with
    | .error complaint => .error complaint
    | .ok source =>
      match descriptor standardOutput (some destination) with
      | .error complaint => .error complaint
      | .ok destination => .ok (merge source destination)

def present (path : Text) (p : Process) (w : World) : Except Errno World :=
  match w.access p.directory path none with
  | .ok () => .ok w
  | .error _ => (p.openPath w path .create).map fun opened => opened.2.2

def permitted (asked : Permission) (path : Text) (p : Process) (w : World) :
    Except (Errno × World) World :=
  match w.access p.directory path (some asked) with
  | .ok () => .ok w
  | .error e => .error (e, w)

def verifyFile (path : Text) (mode : OpenMode) (p : Process) (w : World) :
    Except (Errno × World) World :=
  if mode = .read then permitted .read path p w
  else
    match present path p w with
    | .ok w => permitted .write path p w
    | .error e => .error (e, w)

def verify (wiring : Wiring) (p : Process) (w : World) : Except (Failure × World) World :=
  match wiring with
  | merge _ _ => .ok w
  | file path mode _ =>
    match verifyFile path mode p w with
    | .ok w => .ok w
    | .error (e, w) => .error (.redirect path e.description, w)

def copyOnto (fd : Int) : List Int → Process → Except Errno Process
  | [], p => .ok p
  | target :: rest, p =>
    match p.copy fd target with
    | .error e => .error e
    | .ok p => copyOnto fd rest p

def wire (wiring : Wiring) (p : Process) (w : World) : Except Failure Process × World :=
  match wiring with
  | merge source destination =>
    match p.copy destination source with
    | .ok p => (.ok p, w)
    | .error e => (.error (.systemCall "dup2" e), w)
  | file path mode onto =>
    match p.openPath w path mode with
    | .error e => (.error (.systemCall "open" e), w)
    | .ok (fd, p, w) =>
      match copyOnto fd onto p with
      | .error e => (.error (.systemCall "dup2" e), w)
      | .ok p => (.ok (if onto.contains (fd : Int) then p else p.close fd), w)

end Wiring

end TinyShell
