import TinyShell.Machine.Limit
import TinyShell.Machine.Path
import TinyShell.Machine.Rights
import TinyShell.Machine.Signal

/-!
# Processes, descriptors and open files

The world is what processes share: the file tree, the files opened so far, the
contents of pipes and the rights of the user they all run for. A process has
its number, a current directory, a table of descriptors and its signal state.
Descriptors that were copied from one another share an opening and so a place in
the file. An opening may have room for some more bytes only.

A process is numbered by the forks between it and the first one. Two children of
one parent have the same number, and nothing tells them apart by it.
-/

set_option autoImplicit false

namespace TinyShell

inductive Channel
  | file (location : Location)
  | pipe (number : Nat)
deriving DecidableEq, Repr

structure Opening where
  channel : Channel
  offset : Nat
  readable : Bool
  writable : Bool
  appends : Bool
  limit : Option (Limit Errno)
deriving DecidableEq, Repr

structure World where
  tree : Tree
  openings : List Opening
  pipes : List Bytes
  rights : Rights

inductive OpenMode
  | read
  | create
  | overwrite
  | append
deriving DecidableEq, Repr

structure Slot where
  opening : Nat
  closeOnExec : Bool
deriving DecidableEq, Repr

structure Descriptors where
  slots : List (Option Slot)
deriving DecidableEq, Repr

namespace Descriptors

@[irreducible] def limit : Nat := 1024

def find? (d : Descriptors) (fd : Nat) : Option Slot := d.slots[fd]?.getD none

def set (d : Descriptors) (fd : Nat) (slot : Option Slot) : Descriptors :=
  ⟨(d.slots ++ List.replicate (fd + 1 - d.slots.length) none).set fd slot⟩

def lowestFree (d : Descriptors) : Nat := d.slots.findIdx Option.isNone

def valid (fd : Int) : Bool := 0 ≤ fd && fd < limit

def copy (d : Descriptors) (source target : Int) : Except Errno Descriptors :=
  if !valid source || !valid target then .error .badDescriptor
  else
    match d.find? source.toNat with
    | none => .error .badDescriptor
    | some slot =>
      if source = target then .ok d
      else .ok (d.set target.toNat (some { slot with closeOnExec := false }))

def kept (d : Descriptors) : Descriptors :=
  ⟨d.slots.map fun slot => slot.filter fun slot => !slot.closeOnExec⟩

theorem find?_set (d : Descriptors) (fd n : Nat) (slot : Option Slot) :
    (d.set fd slot).find? n = if n = fd then slot else d.find? n := by
  simp only [set, find?, List.getElem?_set, List.length_append, List.length_replicate]
  by_cases h : fd = n
  · subst h
    rw [if_pos rfl, if_pos (by omega), if_pos rfl]
    rfl
  · rw [if_neg h, if_neg (Ne.symm h), List.getElem?_append]
    split
    next => rfl
    next hn =>
      rw [List.getElem?_replicate, List.getElem?_eq_none (Nat.le_of_not_lt hn)]
      split <;> rfl

theorem find?_lowestFree (d : Descriptors) : d.find? d.lowestFree = none := by
  unfold find? lowestFree
  by_cases h : d.slots.findIdx Option.isNone < d.slots.length
  · have := List.findIdx_getElem (w := h)
    rw [List.getElem?_eq_getElem h]
    simpa using this
  · rw [List.getElem?_eq_none (Nat.le_of_not_lt h)]
    rfl

theorem find?_kept (d : Descriptors) (fd : Nat) :
    d.kept.find? fd = (d.find? fd).filter fun slot => !slot.closeOnExec := by
  unfold find? kept
  rw [List.getElem?_map]
  cases d.slots[fd]? <;> rfl

end Descriptors

structure Process where
  /-- Counts the forks between the process and the first one. -/
  pid : Nat
  directory : Location
  descriptors : Descriptors
  signals : SignalState
  /-- Openings that the processes above it have, which all wait for it. -/
  held : List Nat

namespace World

def newFileMode : Nat := 0o644

def opened (w : World) (channel : Channel) (mode : OpenMode) : World × Nat :=
  let opening : Opening :=
    ⟨channel, 0, mode == .read, mode != .read, mode == .append, none⟩
  ({ w with openings := w.openings ++ [opening] }, w.openings.length)

def allows (w : World) (asked : Permission) (l : Location) : Except Errno Unit :=
  match w.tree.find? l with
  | none => .error .noEntry
  | some node => w.rights.check asked l node

def access (w : World) (directory : Location) (path : Text) (asked : Option Permission) :
    Except Errno Unit :=
  match w.tree.locate directory path with
  | .error e => .error e
  | .ok l =>
    match asked with
    | none => .ok ()
    | some asked => w.allows asked l

def admits (w : World) (l : Location) : Except Errno Unit :=
  if (w.tree.find? l).isNone then w.allows .write l.dropLast
  else
    match w.allows .write l with
    | .error e => .error e
    | .ok () => if w.rights.running.contains l then .error .textBusy else .ok ()

def prepared (t : Tree) (l : Location) (mode : OpenMode) (bits : Nat) : Tree :=
  match t.find? l with
  | some (.file old _) => if mode = .overwrite then t.put l (.file old []) else t
  | _ => t.put l (.file bits [])

def prepare (w : World) (l : Location) (mode : OpenMode) : World :=
  { w with
    tree := prepared w.tree l mode (w.rights.created newFileMode)
    rights := if (w.tree.find? l).isNone then w.rights.own l else w.rights }

def openPath (w : World) (directory : Location) (path : Text) (mode : OpenMode) :
    Except Errno (World × Nat) :=
  if mode = .read then
    match w.tree.locate directory path with
    | .error e => .error e
    | .ok l =>
      match w.allows .read l with
      | .error e => .error e
      | .ok () => .ok (w.opened (.file l) mode)
  else
    match w.tree.place directory path with
    | .error e => .error e
    | .ok l =>
      match w.admits l with
      | .error e => .error e
      | .ok () => .ok ((w.prepare l mode).opened (.file l) mode)

def splice (content : Bytes) (offset : Nat) (bytes : Bytes) : Bytes :=
  if bytes.isEmpty then content
  else
    let front := content.take offset
    front ++ List.replicate (offset - front.length) 0 ++ bytes ++
      content.drop (offset + bytes.length)

def setOpening (w : World) (id : Nat) (opening : Opening) : World :=
  { w with openings := w.openings.set id opening }

def writeOpening (w : World) (id : Nat) (bytes : Bytes) : Option Errno × World :=
  match w.openings[id]? with
  | none => (some .badDescriptor, w)
  | some opening =>
    if !opening.writable then (some .badDescriptor, w)
    else
      let taken := Limit.cut opening.limit bytes
      let refusal := Limit.refusal opening.limit bytes
      let limited := { opening with limit := Limit.after opening.limit bytes }
      match opening.channel with
      | .pipe n =>
        (refusal, { w with pipes := w.pipes.modify n (· ++ taken) }.setOpening id limited)
      | .file l =>
        match w.tree.find? l with
        | some (.file bits content) =>
          let offset := if opening.appends then content.length else opening.offset
          let tree := w.tree.put l (.file bits (splice content offset taken))
          (refusal, { w with tree := tree }.setOpening id
            { limited with offset := offset + taken.length })
        | _ => (some .badDescriptor, w)

def readOpening (w : World) (id : Nat) (count : Option Nat) : Except Errno (Bytes × World) :=
  let cut (bytes : Bytes) : Bytes := match count with
    | none => bytes
    | some n => bytes.take n
  match w.openings[id]? with
  | none => .error .badDescriptor
  | some opening =>
    if !opening.readable then .error .badDescriptor
    else
      match opening.channel with
      | .pipe n =>
        let bytes := cut (w.pipes[n]?.getD [])
        .ok (bytes, { w with pipes := w.pipes.modify n (·.drop bytes.length) })
      | .file l =>
        match w.tree.find? l with
        | some (.file _ content) =>
          let bytes := cut (content.drop opening.offset)
          .ok (bytes, w.setOpening id { opening with offset := opening.offset + bytes.length })
        | some (.program _) => .ok ([], w)
        | _ => .error .isDirectory

end World

namespace Process

def opening? (p : Process) (fd : Nat) : Option Nat := (p.descriptors.find? fd).map Slot.opening

def openings (p : Process) : List Nat :=
  p.descriptors.slots.filterMap (fun slot => slot.map Slot.opening) ++ p.held

def writes (p : Process) (w : World) (l : Location) : Bool :=
  p.openings.any fun id =>
    match w.openings[id]? with
    | some opening => opening.writable && opening.channel == .file l
    | none => false

def openPath (p : Process) (w : World) (path : Text) (mode : OpenMode) :
    Except Errno (Nat × Process × World) :=
  let fd := p.descriptors.lowestFree
  if Descriptors.limit ≤ fd then .error .tooManyOpen
  else
    match w.openPath p.directory path mode with
    | .error e => .error e
    | .ok (w, id) =>
      .ok (fd, { p with descriptors := p.descriptors.set fd (some ⟨id, false⟩) }, w)

def close (p : Process) (fd : Nat) : Process :=
  { p with descriptors := p.descriptors.set fd none }

def copy (p : Process) (source target : Int) : Except Errno Process :=
  match p.descriptors.copy source target with
  | .error e => .error e
  | .ok descriptors => .ok { p with descriptors := descriptors }

def write (p : Process) (w : World) (fd : Nat) (bytes : Bytes) : Option Errno × World :=
  match p.opening? fd with
  | none => (some .badDescriptor, w)
  | some id => w.writeOpening id bytes

def say (p : Process) (w : World) (fd : Nat) (bytes : Bytes) : World := (p.write w fd bytes).2

def limit (p : Process) (w : World) (fd : Nat) : Option (Limit Errno) :=
  match (p.opening? fd).bind (w.openings[·]?) with
  | none => none
  | some opening => if opening.writable then opening.limit else none

def read (p : Process) (w : World) (fd : Nat) (count : Option Nat) :
    Except Errno (Bytes × World) :=
  match p.opening? fd with
  | none => .error .badDescriptor
  | some id => w.readOpening id count

def mapSignals (f : SignalState → SignalState) (p : Process) : Process :=
  { p with signals := f p.signals }

def executing (p : Process) : Process :=
  { p with descriptors := p.descriptors.kept }

def enter (p : Process) (w : World) (path : Text) : Except Errno Process :=
  match w.tree.locate p.directory path with
  | .error e => .error e
  | .ok l => if w.tree.isDirectory l then .ok { p with directory := l } else .error .notDirectory

end Process

end TinyShell
