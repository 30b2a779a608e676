import TinyShell.Errno
import TinyShell.Text.Utf8

/-!
# File tree

A location is the list of names from the root, and a tree says what is found
at each location. Files keep the bits of their mode; an installed program is a
file that everyone may execute.
-/

set_option autoImplicit false

namespace TinyShell

abbrev Location := List Text

inductive Program
  | echo
  | cat
  | succeed
  | fail
  | pwd
  | sh
deriving DecidableEq, Repr

inductive Node
  | directory
  | file (mode : Nat) (content : Bytes)
  | program (p : Program)
deriving DecidableEq, Repr

namespace Node

def mode : Node → Nat
  | file mode _ => mode
  | directory | program _ => 0o755

def isDirectory : Node → Bool
  | directory => true
  | _ => false

def isExecutable : Node → Bool
  | directory => false
  | file mode _ => mode &&& 0o111 != 0
  | program _ => true

end Node

structure Tree where
  entries : List (Location × Node)
deriving Repr

namespace Tree

def lookup : List (Location × Node) → Location → Option Node
  | [], _ => none
  | (there, node) :: rest, l => if there = l then some node else lookup rest l

def replace : List (Location × Node) → Location → Node → List (Location × Node)
  | [], l, node => [(l, node)]
  | (there, old) :: rest, l, node =>
    if there = l then (l, node) :: rest else (there, old) :: replace rest l node

def find? (t : Tree) : Location → Option Node
  | [] => some .directory
  | l => lookup t.entries l

def put (t : Tree) (l : Location) (node : Node) : Tree := ⟨replace t.entries l node⟩

theorem lookup_replace (entries : List (Location × Node)) (l l' : Location) (node : Node) :
    lookup (replace entries l node) l' = if l = l' then some node else lookup entries l' := by
  induction entries with
  | nil => simp [replace, lookup]
  | cons entry rest ih =>
    obtain ⟨there, old⟩ := entry
    by_cases h : there = l <;> by_cases h' : there = l' <;> by_cases h'' : l = l' <;>
      simp_all [replace, lookup]

@[simp] theorem find?_put_self (t : Tree) (l : Location) (node : Node) (h : l ≠ []) :
    (t.put l node).find? l = some node := by
  cases l with
  | nil => exact absurd rfl h
  | cons name rest => simp [put, find?, lookup_replace]

theorem find?_put_of_ne (t : Tree) {l l' : Location} (node : Node) (h : l ≠ l') :
    (t.put l node).find? l' = t.find? l' := by
  cases l' with
  | nil => rfl
  | cons name rest => simp [put, find?, lookup_replace, h]

def isDirectory (t : Tree) (l : Location) : Bool := (t.find? l).any Node.isDirectory

def makeParents (t : Tree) (l : Location) : Tree :=
  (((List.range l.length).drop 1).map l.take).foldl
    (fun t d => if (t.find? d).isSome then t else t.put d .directory) t

def install (t : Tree) (l : Location) (node : Node) : Tree := (t.makeParents l).put l node

end Tree

namespace Location

def path (l : Location) : Text :=
  if l.isEmpty then ['/'] else l.flatMap fun name => '/' :: name

end Location

end TinyShell
