import TinyShell.Machine.Tree

/-!
# Rights

Whether a file may be read or written depends on the bits of its mode, on what
the user is to it, and on whether the user is one that no bits bind. Everyone
may search the directories and read them, but only their owner may write to them,
and nobody may write to an installed program, as if it lay on a file system that
cannot be changed. To execute a file it is enough that someone may.
-/

set_option autoImplicit false

namespace TinyShell

inductive Permission
  | read
  | write
deriving DecidableEq, Repr

inductive Role
  | owner
  | group
  | other
deriving DecidableEq, Repr

namespace Permission

def bit : Permission → Role → Nat
  | read, .owner => 0o400
  | read, .group => 0o040
  | read, .other => 0o004
  | write, .owner => 0o200
  | write, .group => 0o020
  | write, .other => 0o002

end Permission

/-- What the user of a machine may do: whether bits bind the user, which bits
new files lack, what the user is to each file, and which files are being
executed by someone. -/
structure Rights where
  superuser : Bool
  umask : Nat
  role : Location → Role
  running : List Location

namespace Rights

def full : Rights := ⟨true, 0o022, fun _ => .other, []⟩

def check (r : Rights) (asked : Permission) (l : Location) (node : Node) : Except Errno Unit :=
  match asked, node with
  | .write, .program _ => .error .readOnly
  | _, _ =>
    if r.superuser || node.mode &&& asked.bit (r.role l) != 0 then .ok ()
    else .error .accessDenied

def created (r : Rights) (bits : Nat) : Nat := bits ^^^ (bits &&& r.umask)

def own (r : Rights) (l : Location) : Rights :=
  { r with role := fun other => if other = l then .owner else r.role other }

end Rights

end TinyShell
