import TinyShell.Machine.Process

/-!
# Programs

What the small programs do when they are run: they read and write through the
descriptors they were given, complain if they cannot, and end with a code.
-/

set_option autoImplicit false

namespace TinyShell

namespace Program

def reason (e : Errno) : Text :=
  if e = .badDescriptor then "Bad file descriptor" else e.description

def complain (name message : Text) (p : Process) (w : World) : World :=
  p.say w 2 (Utf8.encode (name ++ ": " ++ message ++ "\n"))

def print (name text : Text) (p : Process) (w : World) : Nat × World :=
  match p.write w 1 (Utf8.encode text) with
  | (none, w) => (0, w)
  | (some e, w) => (1, complain name ("write error: " ++ reason e) p w)

def isOwnOutput (p : Process) (w : World) (l : Location) (offset : Nat) : Bool :=
  match (p.opening? 1).bind (w.openings[·]?), w.tree.find? l with
  | some out, some (.file _ content) => out.channel == .file l && offset < content.length
  | _, _ => false

def pass (name : Text) (bytes : Bytes) (p : Process) (w : World) : Nat × World :=
  match p.write w 1 bytes with
  | (none, w) => (0, w)
  | (some e, w) =>
    if bytes.isEmpty then (0, w) else (1, complain name ("write error: " ++ reason e) p w)

def catInput (name : Text) (p : Process) (w : World) : Nat × World :=
  let own := match (p.opening? 0).bind (w.openings[·]?) with
    | some ⟨.file l, offset, _, _, _, _⟩ => isOwnOutput p w l offset
    | _ => false
  if own then (1, complain name "-: input file is output file" p w)
  else
    match p.read w 0 none with
    | .ok (bytes, w) => pass name bytes p w
    | .error e => (1, complain name ("-: " ++ reason e) p w)

def catFile (name path : Text) (p : Process) (w : World) : Nat × World :=
  match w.tree.locate p.directory path with
  | .error e => (1, complain name (path ++ ": " ++ reason e) p w)
  | .ok l =>
    match w.allows .read l with
    | .error e => (1, complain name (path ++ ": " ++ reason e) p w)
    | .ok () =>
      if isOwnOutput p w l 0 then
        (1, complain name (path ++ ": input file is output file") p w)
      else
        match w.tree.find? l with
        | some (.file _ content) => pass name content p w
        | some .directory => (1, complain name (path ++ ": Is a directory") p w)
        | _ => (0, w)

def catAll (name : Text) (paths : List Text) (p : Process) (w : World) : Nat × World :=
  paths.foldl
    (fun (code, w) (path : Text) =>
      let (next, w) := if path = "-" then catInput name p w else catFile name path p w
      (max code next, w))
    (0, w)

end Program

end TinyShell
