import TinyShell.Machine.Console
import TinyShell.Proofs.Forks.Containment
import TinyShell.Proofs.Redirection.Files

/-!
# Where commands are found

There are two searches for a command: one tells where it would be found, the
other one is made when it is executed. Both try the same files in the same
order, though not always by the same path, as long as a search path is set and
nothing keeps the second one from going on. Without a search path they do not
agree: only the second one falls back to the standard one.
-/

set_option autoImplicit false

namespace TinyShell

namespace Text

theorem splitAll_ne_nil (separator : Char) (text : Text) : splitAll separator text ≠ [] := by
  cases text with
  | nil => simp [splitAll]
  | cons c rest =>
    simp only [splitAll]
    split
    next => simp
    next => split <;> simp

theorem splitAll_append (separator : Char) (front back : Text) :
    splitAll separator (front ++ separator :: back) =
      splitAll separator front ++ splitAll separator back := by
  induction front with
  | nil => simp [splitAll]
  | cons c rest ih =>
    simp only [List.cons_append, splitAll, ih]
    by_cases hc : c = separator
    · simp [hc]
    · cases hs : splitAll separator rest with
      | nil => exact absurd hs (splitAll_ne_nil separator rest)
      | cons piece pieces => simp [hc]

theorem splitAll_whole {separator : Char} {text : Text} (h : separator ∉ text) :
    splitAll separator text = [text] := by
  induction text with
  | nil => rfl
  | cons c rest ih =>
    have hc : c ≠ separator := fun he => h (by simp [he])
    have hrest : separator ∉ rest := fun he => h (by simp [he])
    simp only [splitAll, ih hrest, if_neg hc]

end Text

theorem Utf8.size_append (front back : Text) :
    size (front ++ back) = size front + size back := by
  simp [size, encode]

namespace Path

theorem names_append (front back : Text) :
    names (front ++ '/' :: back) = names front ++ names back := by
  simp [names, Text.splitAll_append]

theorem endsWithSlash_append {name : Text} (h : name ≠ []) (front : Text) :
    endsWithSlash (front ++ name) = endsWithSlash name := by
  simp only [endsWithSlash, List.getLast?_append]
  cases hl : name.getLast? with
  | none => exact absurd (List.getLast?_eq_none_iff.mp hl) h
  | some c => rfl

end Path

namespace Execution

def tried (name directory : Text) : Text :=
  if directory.isEmpty then name else directory ++ '/' :: name

/-- The path that is told for it, with one slash where there may be two. -/
theorem tried_cases (name directory : Text) :
    Path.join directory name = tried name directory ∨
    ∃ front, Path.join directory name = front ++ '/' :: name ∧
      tried name directory = front ++ '/' :: '/' :: name := by
  cases hd : directory with
  | nil => exact .inl rfl
  | cons c rest =>
    cases hs : Path.endsWithSlash (c :: rest) with
    | false => exact .inl (by simp [Path.join, tried, hs])
    | true =>
      obtain ⟨front, hfront⟩ := List.getLast?_eq_some_iff.mp (eq_of_beq hs)
      refine .inr ⟨front, ?_, ?_⟩
      · rw [Path.join, if_pos (by simp [hs]), hfront]
        simp
      · simp [tried, hfront]

end Execution

namespace Tree

variable {t : Tree} {directory : Location}

/-- A slash more makes no difference, if the path is not too long by it. -/
theorem locate_slashes {front name : Text} (hn : name ≠ [])
    (hc : Path.check (front ++ '/' :: '/' :: name) ≠ .error .nameTooLong) :
    t.locate directory (front ++ '/' :: name) =
      t.locate directory (front ++ '/' :: '/' :: name) := by
  have hcheck : Path.check (front ++ '/' :: name) = Path.check (front ++ '/' :: '/' :: name) := by
    have hnul : Text.hasNul (front ++ '/' :: name) =
        Text.hasNul (front ++ '/' :: '/' :: name) := by
      simp [Text.hasNul]
    have hsize : Utf8.size (front ++ '/' :: name) ≤
        Utf8.size (front ++ '/' :: '/' :: name) := by
      rw [Utf8.size_append, Utf8.size_append]
      have htail := Utf8.size_append ['/'] ('/' :: name)
      simp only [List.cons_append, List.nil_append] at htail
      omega
    simp only [Path.check, hnul] at hc ⊢
    cases hx : Text.hasNul (front ++ '/' :: '/' :: name) with
    | true => rfl
    | false =>
      simp only [hx, Bool.false_eq_true, if_false] at hc ⊢
      have hfits : ¬ Path.longestPath < Utf8.size (front ++ '/' :: '/' :: name) := by
        intro hlong
        simp [hlong] at hc
      have hfits' : ¬ Path.longestPath < Utf8.size (front ++ '/' :: name) := by omega
      simp [hfits, hfits']
  have hstart : Path.start directory (front ++ '/' :: name) =
      Path.start directory (front ++ '/' :: '/' :: name) := by
    cases front <;> rfl
  have hnames : Path.names (front ++ '/' :: name) = Path.names (front ++ '/' :: '/' :: name) := by
    have hslash : Path.names ('/' :: name) = Path.names name := Path.names_append [] name
    rw [Path.names_append, Path.names_append, hslash]
  have hends : Path.endsWithSlash (front ++ '/' :: name) =
      Path.endsWithSlash (front ++ '/' :: '/' :: name) := by
    have hone := Path.endsWithSlash_append hn (front ++ ['/'])
    have htwo := Path.endsWithSlash_append hn (front ++ ['/', '/'])
    simp only [List.append_assoc, List.cons_append, List.nil_append] at hone htwo
    rw [hone, htwo]
  simp only [locate, hcheck, hstart, hnames, hends]

theorem locate_join {name d : Text} (hn : name ≠ [])
    (hc : Path.check (Execution.tried name d) ≠ .error .nameTooLong) :
    t.locate directory (Path.join d name) = t.locate directory (Execution.tried name d) := by
  rcases Execution.tried_cases name d with h | ⟨front, hjoin, htried⟩
  · rw [h]
  · rw [htried] at hc ⊢
    rw [hjoin]
    exact locate_slashes hn hc

theorem step_long {l : Location} {name : Text} (h : Path.longestName < Utf8.size name)
    (next : Location) : t.step l name ≠ .ok next := by
  unfold step
  split
  next => simp
  next =>
    have hhere : name ≠ Path.here := by
      rintro rfl
      revert h
      decide
    have habove : name ≠ Path.above := by
      rintro rfl
      revert h
      decide
    simp [hhere, habove]

theorem walk_long {l : Location} {names : List Text} {name : Text}
    (h : Path.longestName < Utf8.size name) (last : Location) :
    t.walk l (names ++ [name]) ≠ .ok last := by
  induction names generalizing l with
  | nil =>
    simp only [List.nil_append, walk]
    split
    next hs => exact absurd hs (step_long h _)
    next => simp
  | cons first rest ih =>
    simp only [List.cons_append, walk]
    split
    next => exact ih
    next => simp

theorem not_executable_long {name d : Text} (hn : name ≠ []) (hslash : '/' ∉ name)
    (h : Path.longestName < Utf8.size name) :
    t.isExecutable directory (Path.join d name) = false := by
  have hnames : ∃ front, Path.names (Path.join d name) = front ++ [name] := by
    have hname : Path.names name = [name] := by
      cases name with
      | nil => exact absurd rfl hn
      | cons c rest => simp [Path.names, Text.splitAll_whole hslash]
    rcases Execution.tried_cases name d with hjoin | ⟨front, hjoin, _⟩
    · rw [hjoin]
      cases d with
      | nil => exact ⟨[], hname⟩
      | cons c rest =>
        exact ⟨_, (Path.names_append (c :: rest) name).trans (by rw [hname])⟩
    · rw [hjoin]
      exact ⟨_, (Path.names_append front name).trans (by rw [hname])⟩
  obtain ⟨front, hnames⟩ := hnames
  have hlocate (l : Location) : t.locate directory (Path.join d name) ≠ .ok l := by
    simp only [locate, hnames]
    split
    next => simp
    next =>
      split
      next => simp
      next hw => exact absurd hw (walk_long h _)
  unfold isExecutable
  split
  next hl => exact absurd hl (hlocate _)
  next => rfl

end Tree

namespace Execution

def settles (p : Process) (w : World) (path : Text) : Bool :=
  match imageAt p w path with
  | .ok _ => true
  | .error e => passesOver e

/-- Nothing keeps a search from going on but what it has found: no directory is
longer than any path can be, what is missing or may not be executed is passed
over, and a file that may be executed can be. -/
structure Undisturbed (search : Option Text) (p : Process) (w : World) (name : Text) : Prop where
  short : ∀ d ∈ Text.splitAll ':' (search.getD standardPath), Utf8.size d ≤ Path.longestPath
  settled : ∀ path ∈ candidates search name, settles p w path = true

inductive SameFile (t : Tree) (directory : Location) :
    Option Text → Option (Text × Location × Image) → Prop
  | none : SameFile t directory none none
  | found {path tried : Text} {l : Location} {image : Image}
      (h : t.locate directory path = .ok l) :
      SameFile t directory (some path) (some (tried, l, image))

variable {p : Process} {w : World} {search : Option Text} {name path : Text} {l : Location}
  {image : Image}

theorem ofNode_isSome (node : Node) : (Image.ofNode node).isSome = node.isExecutable := by
  cases node with
  | directory => rfl
  | file mode content =>
    simp only [Image.ofNode]
    split
    next h => exact h.symm
    next h => simpa using h
  | program it => rfl

theorem executable_of_imageAt (h : imageAt p w path = .ok (l, image)) :
    w.tree.locate p.directory path = .ok l ∧ (w.tree.find? l).any Node.isExecutable = true := by
  unfold imageAt at h
  split at h
  next => cases h
  next there hl =>
    split at h
    next => cases h
    next found hfound =>
      split at h
      next => cases h
      next =>
        cases h
        obtain ⟨node, hnode, hof⟩ := Option.bind_eq_some_iff.mp hfound
        refine ⟨hl, ?_⟩
        rw [hnode, Option.any_some, ← ofNode_isSome, hof]
        rfl

theorem imageAt_of_executable (hs : settles p w path = true)
    (hl : w.tree.locate p.directory path = .ok l)
    (hx : (w.tree.find? l).any Node.isExecutable = true) :
    ∃ image, imageAt p w path = .ok (l, image) := by
  cases hn : w.tree.find? l with
  | none =>
    rw [hn] at hx
    cases hx
  | some node =>
    rw [hn, Option.any_some, ← ofNode_isSome] at hx
    obtain ⟨image, hof⟩ := Option.isSome_iff_exists.mp hx
    simp only [settles, imageAt, hl, hn, Option.bind_some, hof] at hs ⊢
    cases hw : p.writes w l with
    | false => exact ⟨image, by simp⟩
    | true =>
      rw [hw] at hs
      cases hs

/-- Where a search goes on, files can be executed exactly if they may be. -/
theorem executable_iff (hs : settles p w path = true) :
    w.tree.isExecutable p.directory path = true ↔
      ∃ l image, imageAt p w path = .ok (l, image) := by
  unfold Tree.isExecutable
  constructor
  · intro hx
    split at hx
    next l hl => exact ⟨l, imageAt_of_executable hs hl hx⟩
    next => cases hx
  · rintro ⟨l, image, hi⟩
    obtain ⟨hl, hx⟩ := executable_of_imageAt hi
    rw [hl]
    exact hx

/-- A path that is told, and the same file tried first; or both passed over. -/
theorem first_sameFile {told : Text} {others : Option Text} {rest : List Text}
    (hs : settles p w path = true)
    (ht : w.tree.locate p.directory told = w.tree.locate p.directory path)
    (hrest : SameFile w.tree p.directory others (firstOf p w rest)) :
    SameFile w.tree p.directory
      (if w.tree.isExecutable p.directory told then some told else others)
      (firstOf p w (path :: rest)) := by
  have htold : w.tree.isExecutable p.directory told = w.tree.isExecutable p.directory path := by
    simp only [Tree.isExecutable, ht]
  rw [htold, firstOf]
  cases hi : imageAt p w path with
  | ok found =>
    obtain ⟨l, image⟩ := found
    rw [if_pos ((executable_iff hs).mpr ⟨l, image, hi⟩)]
    apply SameFile.found
    rw [ht]
    exact (executable_of_imageAt hi).1
  | error e =>
    have hx : ¬ w.tree.isExecutable p.directory path = true := by
      intro hx
      obtain ⟨l, image, hok⟩ := (executable_iff hs).mp hx
      rw [hi] at hok
      cases hok
    have hpasses : passesOver e = true := by
      rw [settles, hi] at hs
      exact hs
    simp only [hpasses, if_true, if_neg hx]
    exact hrest

theorem firstOf_locate {paths : List Text} (h : firstOf p w paths = some (path, l, image)) :
    w.tree.locate p.directory path = .ok l := by
  induction paths with
  | nil => cases h
  | cons first rest ih =>
    simp only [firstOf] at h
    split at h
    next hi =>
      cases h
      exact (executable_of_imageAt hi).1
    next =>
      split at h
      next => exact ih h
      next => cases h

theorem locate_join {d : Text} (hn : name ≠ []) (hs : settles p w (tried name d) = true) :
    w.tree.locate p.directory (Path.join d name) =
      w.tree.locate p.directory (tried name d) := by
  apply Tree.locate_join hn
  -- A path that is too long would end the search.
  intro hc
  have himage : imageAt p w (tried name d) = .error .nameTooLong := by
    simp only [imageAt, Tree.locate, hc]
  rw [settles, himage] at hs
  cases hs

theorem directories_short {ds : List Text} (h : ∀ d ∈ ds, Utf8.size d ≤ Path.longestPath) :
    directories ds = ds := by
  induction ds with
  | nil => rfl
  | cons d rest ih =>
    have hd : ¬ Path.longestPath < Utf8.size d := by
      have hle := h d (by simp)
      omega
    have hrest := ih fun d' hd' => h d' (by simp [hd'])
    cases rest with
    | nil => simp only [directories, if_neg hd]
    | cons d' rest => simp only [directories, if_neg hd, hrest]

/-- Directory by directory, the two searches come to the same file. -/
theorem search_sameFile {ds : List Text} (hn : name ≠ [])
    (h : ∀ d ∈ ds, settles p w (tried name d) = true) :
    SameFile w.tree p.directory
      ((ds.map fun d => Path.join d name).find? fun path => w.tree.isExecutable p.directory path)
      (firstOf p w (ds.map (tried name))) := by
  induction ds with
  | nil => exact .none
  | cons d rest ih =>
    have hs := h d (by simp)
    have hrest := ih fun d' hd' => h d' (by simp [hd'])
    have hfirst := first_sameFile hs (locate_join hn hs) hrest
    simp only [List.map_cons, List.find?_cons]
    cases hx : w.tree.isExecutable p.directory (Path.join d name) with
    | true => simpa only [hx, if_true] using hfirst
    | false => simpa only [hx, Bool.false_eq_true, if_false] using hfirst

theorem resolve_sameFile {env : Environment}
    (hset : env.search.isSome = true ∨ name.contains '/' = true)
    (h : Undisturbed env.search p w name) :
    SameFile w.tree p.directory (env.resolve w.tree p.directory name)
      (find? env.search p w name) := by
  unfold Environment.resolve find?
  by_cases hempty : name.isEmpty = true
  · rw [if_pos hempty, candidates, if_pos hempty]
    exact .none
  have hn : name ≠ [] := fun he => hempty (by rw [he]; rfl)
  have hsettled := h.settled
  rw [if_neg hempty]
  by_cases hslash : name.contains '/' = true
  · -- A path is looked for where it leads.
    simp only [candidates, if_neg hempty, if_pos hslash] at hsettled ⊢
    exact first_sameFile (hsettled name (by simp)) rfl .none
  · obtain ⟨path, hpath⟩ := Option.isSome_iff_exists.mp (hset.resolve_right hslash)
    have hshort := h.short
    rw [hpath, Option.getD_some] at hshort
    simp only [candidates, if_neg hempty, if_neg hslash, hpath, Option.getD_some] at hsettled ⊢
    by_cases hlong : Path.longestName < Utf8.size name
    · have hnone : ((Text.splitAll ':' path).map fun d => Path.join d name).find?
          (fun path => w.tree.isExecutable p.directory path) = none := by
        apply List.find?_eq_none.mpr
        intro told htold
        obtain ⟨d, _, rfl⟩ := List.mem_map.mp htold
        have hmem : '/' ∉ name := by simpa using hslash
        rw [Tree.not_executable_long hn hmem hlong]
        exact Bool.false_ne_true
      simp only [if_pos hlong, hnone]
      exact .none
    · simp only [if_neg hlong, directories_short hshort] at hsettled ⊢
      apply search_sameFile hn
      intro d hd
      exact hsettled _ (List.mem_map_of_mem hd)

end Execution

namespace Descriptors

theorem mem_openings {d : Descriptors} {id : Nat} :
    id ∈ d.slots.filterMap (fun slot => slot.map Slot.opening) ↔
      ∃ fd slot, d.find? fd = some slot ∧ slot.opening = id := by
  simp only [List.mem_filterMap, Option.map_eq_some_iff]
  constructor
  · rintro ⟨held, hmem, slot, rfl, hid⟩
    obtain ⟨fd, hfd, hget⟩ := List.getElem_of_mem hmem
    exact ⟨fd, slot, by rw [find?, List.getElem?_eq_getElem hfd, hget]; rfl, hid⟩
  · rintro ⟨fd, slot, hfind, hid⟩
    rw [find?] at hfind
    cases hget : d.slots[fd]? with
    | none =>
      rw [hget] at hfind
      cases hfind
    | some held =>
      rw [hget] at hfind
      obtain rfl : held = some slot := hfind
      exact ⟨some slot, List.mem_of_getElem? hget, slot, rfl, hid⟩

end Descriptors

def World.WritesTo (w : World) (l : Location) (id : Nat) : Prop :=
  ∃ opening, w.openings[id]? = some opening ∧ opening.writable = true ∧
    opening.channel = .file l

theorem Process.writes_iff {p : Process} {w : World} {l : Location} :
    p.writes w l = true ↔ ∃ id ∈ p.openings, w.WritesTo l id := by
  simp only [writes, List.any_eq_true]
  constructor
  · rintro ⟨id, hid, h⟩
    split at h
    next opening ho =>
      obtain ⟨hw, hc⟩ := (Bool.and_eq_true _ _).mp h
      exact ⟨id, hid, opening, ho, hw, eq_of_beq hc⟩
    next => cases h
  · rintro ⟨id, hid, opening, ho, hw, hc⟩
    refine ⟨id, hid, ?_⟩
    rw [ho]
    simp [hw, hc]

namespace Pipe

theorem create_writesTo (p : Process) {w : World} {l : Location} {id : Nat} :
    (create p w).2.2.WritesTo l id ↔ w.WritesTo l id := by
  have hopenings : (create p w).2.2.openings =
      w.openings ++ [⟨.pipe w.pipes.length, 0, true, false, false, none⟩,
        ⟨.pipe w.pipes.length, 0, false, true, true, none⟩] := by
    simp [create, World.opened]
  unfold World.WritesTo
  rw [hopenings]
  constructor
  · rintro ⟨opening, ho, hw, hc⟩
    rw [List.getElem?_append] at ho
    split at ho
    next => exact ⟨opening, ho, hw, hc⟩
    next =>
      have hmem := List.mem_of_getElem? ho
      simp only [List.mem_cons, List.not_mem_nil, or_false] at hmem
      rcases hmem with rfl | rfl <;> cases hc
  · rintro ⟨opening, ho, hw, hc⟩
    have hlt := (List.getElem?_eq_some_iff.mp ho).1
    exact ⟨opening, by rw [List.getElem?_append_left hlt]; exact ho, hw, hc⟩

end Pipe

namespace ShellState

variable {env : Environment} {s : ShellState} {l : Location}

def launched (s : ShellState) : Process :=
  ((s.openPipe.1.closeReader (s.openPipe.2.onProcess Process.forked).process).2).mapSignals
    SignalState.reset

/-- Every opening of the child is one of its parent, or an end of the pipe. -/
theorem mem_launched {id : Nat} (hid : id ∈ s.launched.openings) :
    id ∈ s.process.openings ∨ s.world.openings.length ≤ id := by
  have made {fd : Nat} {slot : Slot}
      (h : s.openPipe.2.process.descriptors.find? fd = some slot) :
      slot.opening ∈ s.process.openings ∨ s.world.openings.length ≤ slot.opening := by
    have hmake := Pipe.create_find? s.process s.world fd
    rw [show (Pipe.create s.process s.world).2.1.descriptors.find? fd = some slot from h] at hmake
    split at hmake
    next =>
      cases hmake
      exact .inr (Nat.le_succ _)
    next =>
      split at hmake
      next =>
        cases hmake
        exact .inr (Nat.le_refl _)
      next =>
        refine .inl (List.mem_append_left _ ?_)
        exact Descriptors.mem_openings.mpr ⟨fd, slot, hmake.symm, rfl⟩
  rcases List.mem_append.mp hid with hown | hheld
  · obtain ⟨fd, slot, hfind, rfl⟩ := Descriptors.mem_openings.mp hown
    have hset : s.launched.descriptors = s.openPipe.2.process.descriptors.set
        s.process.descriptors.lowestFree none := rfl
    rw [hset, Descriptors.find?_set] at hfind
    split at hfind
    next => cases hfind
    next => exact made hfind
  · rcases List.mem_append.mp hheld with hopened | hheld
    · obtain ⟨fd, slot, hfind, rfl⟩ := Descriptors.mem_openings.mp hopened
      exact made hfind
    · exact .inl (List.mem_append_right _ hheld)

theorem launched_mem {id : Nat} (hid : id ∈ s.process.openings) : id ∈ s.launched.openings := by
  refine List.mem_append_right _ ?_
  show id ∈ s.openPipe.2.process.openings
  rcases List.mem_append.mp hid with hown | hheld
  · obtain ⟨fd, slot, hfind, rfl⟩ := Descriptors.mem_openings.mp hown
    refine List.mem_append_left _ (Descriptors.mem_openings.mpr ⟨fd, slot, ?_, rfl⟩)
    have hused (hend : (Pipe.create s.process s.world).1.reader = some fd ∨
        (Pipe.create s.process s.world).1.writer = some fd) : False := by
      rw [Pipe.create_free hend] at hfind
      cases hfind
    show (Pipe.create s.process s.world).2.1.descriptors.find? fd = some slot
    rw [Pipe.create_find?, if_neg fun hw => hused (.inr hw), if_neg fun hr => hused (.inl hr)]
    exact hfind
  · exact List.mem_append_right _ hheld

theorem writes_launched :
    s.launched.writes s.openPipe.2.world l = s.process.writes s.world l := by
  rw [Bool.eq_iff_iff, Process.writes_iff, Process.writes_iff]
  constructor
  · rintro ⟨id, hid, hw⟩
    have hw := (Pipe.create_writesTo s.process).mp hw
    rcases mem_launched hid with hid | hlarge
    · exact ⟨id, hid, hw⟩
    · obtain ⟨opening, ho, _⟩ := hw
      rw [List.getElem?_eq_none hlarge] at ho
      cases ho
  · rintro ⟨id, hid, hw⟩
    exact ⟨id, launched_mem hid, (Pipe.create_writesTo s.process).mpr hw⟩

theorem find?_launched (search : Option Text) (name : Text) :
    Execution.find? search s.launched s.openPipe.2.world name =
      Execution.find? search s.process s.world name := by
  unfold Execution.find?
  induction Execution.candidates search name with
  | nil => rfl
  | cons path rest ih =>
    have htree : s.openPipe.2.world.tree = s.world.tree := rfl
    have hdirectory : s.launched.directory = s.process.directory := rfl
    have himage : Execution.imageAt s.launched s.openPipe.2.world path =
        Execution.imageAt s.process s.world path := by
      simp only [Execution.imageAt, htree, hdirectory, writes_launched]
    simp only [Execution.firstOf, himage, ih]

/-- The child executes the file that is found, or else gives notice. -/
theorem becomeProgram_launched (name : Text) (arguments : List Text) :
    (∀ path l image, Execution.find? env.search s.process s.world name = some (path, l, image) →
      becomeProgram env s.openPipe.1 name arguments (s.openPipe.2.onProcess Process.forked) =
        env.execute image ⟨path, name, arguments, env.search⟩ s.launched.executing
          s.openPipe.2.world) ∧
    (Execution.find? env.search s.process s.world name = none →
      becomeProgram env s.openPipe.1 name arguments (s.openPipe.2.onProcess Process.forked) =
        (.ofCode notExecutable, s.openPipe.1.send true s.launched s.openPipe.2.world)) := by
  have hbecome : becomeProgram env s.openPipe.1 name arguments
      (s.openPipe.2.onProcess Process.forked) =
      (Execution.replace? env.execute env.search s.launched s.openPipe.2.world name
        arguments).getD
          (.ofCode notExecutable, s.openPipe.1.send true s.launched s.openPipe.2.world) := by
    simp only [becomeProgram, launched]
    split
    next hd => exact (congrArg (Option.getD · _) hd).symm
    next hd => exact (congrArg (Option.getD · _) hd).symm
  rw [hbecome, Execution.replace?, find?_launched]
  constructor
  · intro path l image hfind
    rw [hfind]
    rfl
  · intro hfind
    rw [hfind]
    rfl

end ShellState

/-- With a search path, or for a name that is a path, a command is told to be
somewhere exactly if it gets executed, and what is told leads to the file that
is executed, if nothing disturbs the search. -/
theorem resolve_agrees_with_execution {env : Environment} {s : ShellState} {name : Text}
    (hset : env.search.isSome = true ∨ name.contains '/' = true)
    (h : Execution.Undisturbed env.search s.process s.world name) :
    ((env.resolve s.world.tree s.process.directory name).isSome = true ↔
      (Execution.find? env.search s.process s.world name).isSome = true) ∧
    (∀ path tried l image,
      env.resolve s.world.tree s.process.directory name = some path →
      Execution.find? env.search s.process s.world name = some (tried, l, image) →
      s.world.tree.locate s.process.directory path = .ok l ∧
      s.world.tree.locate s.process.directory tried = .ok l) ∧
    ∀ arguments,
      (∀ tried l image,
        Execution.find? env.search s.process s.world name = some (tried, l, image) →
        ShellState.becomeProgram env s.openPipe.1 name arguments
            (s.openPipe.2.onProcess Process.forked) =
          env.execute image ⟨tried, name, arguments, env.search⟩ s.launched.executing
            s.openPipe.2.world) ∧
      (Execution.find? env.search s.process s.world name = none →
        ShellState.becomeProgram env s.openPipe.1 name arguments
            (s.openPipe.2.onProcess Process.forked) =
          (.ofCode ShellState.notExecutable,
            s.openPipe.1.send true s.launched s.openPipe.2.world)) := by
  have hsame := Execution.resolve_sameFile hset h
  refine ⟨?_, ?_, ShellState.becomeProgram_launched name⟩
  · generalize env.resolve s.world.tree s.process.directory name = told at hsame
    generalize Execution.find? env.search s.process s.world name = found at hsame
    cases hsame with
    | none => exact ⟨id, id⟩
    | found => exact ⟨fun _ => rfl, fun _ => rfl⟩
  · intro path tried l image hpath hfind
    rw [hpath, hfind] at hsame
    cases hsame with
    | found hl => exact ⟨hl, Execution.firstOf_locate hfind⟩

/-- With `:/bin/` for a search path, `true` is told to be `/bin/true` and is
executed as `/bin//true`, after it was not found in the current directory. -/
theorem resolve_agrees_with_execution_slashes :
    ∃ (env : Environment) (s : ShellState) (told tried : Text) (l : Location),
      told = "/bin/true" ∧ tried = "/bin//true" ∧
      env.resolve s.world.tree s.process.directory "true" = some told ∧
      Execution.find? env.search s.process s.world "true" =
        some (tried, l, .program .succeed) ∧
      s.world.tree.locate s.process.directory told = .ok l := by
  obtain ⟨_, hfile, _⟩ := @resolve_agrees_with_execution
    ⟨none, some (":/bin/" : Text), Image.run, false, ⟨[], false, none⟩⟩
    ⟨Console.process 1 [], Console.world World.standardTree [], 0⟩ "true" (.inl rfl)
    ⟨by decide +kernel, by decide +kernel⟩
  have hlocate := hfile "/bin/true" "/bin//true" ["bin", "true"] (.program .succeed)
    (by decide +kernel) (by decide +kernel)
  refine ⟨⟨none, some (":/bin/" : Text), Image.run, false, ⟨[], false, none⟩⟩, _, _, _, _, rfl,
    rfl, ?_, ?_, hlocate.1⟩
  · decide +kernel
  · decide +kernel

/-- Without a search path `true` is executed, but it is not told to be
anywhere. -/
theorem resolve_without_search_path : ∃ (env : Environment) (s : ShellState),
    env.search = none ∧ Execution.Undisturbed env.search s.process s.world "true" ∧
      env.resolve s.world.tree s.process.directory "true" = none ∧
      (Execution.find? env.search s.process s.world "true").isSome = true := by
  refine ⟨⟨none, none, Image.run, false, ⟨[], false, none⟩⟩,
    ⟨Console.process 1 [], Console.world World.standardTree [], 0⟩, rfl, ?_, ?_, ?_⟩
  · exact ⟨by decide +kernel, by decide +kernel⟩
  · decide +kernel
  · decide +kernel

end TinyShell
