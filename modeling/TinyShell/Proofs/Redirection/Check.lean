import TinyShell.Machine.Console
import TinyShell.Proofs.Redirection.Files
import TinyShell.Shell.Evaluation

/-!
# The check before a redirection

Before a process is forked for a redirection, its file is looked for, and made
if it is missing and is to be written; then it is seen whether it may be used.
A file that passes can be opened by the child, and one that could not be opened
is reported before there is a child. The check does not see everything: a
directory may be written to, but is not a file; and a file that someone executes
cannot be written for the time being.
-/

set_option autoImplicit false

namespace TinyShell

namespace Tree

def Standing (t : Tree) (l : Location) : Prop := ∀ above, above <+: l → t.isDirectory above = true

structure Reached (t : Tree) (l : Location) : Prop where
  there : (t.find? l).isSome = true
  above : t.Standing l.dropLast

variable {t t' : Tree} {l l' : Location} {name path : Text} {names : List Text}
  {directory : Location}

theorem standing_nil (t : Tree) : t.Standing [] := by
  intro above h
  rw [List.prefix_nil.mp h]
  rfl

theorem Standing.prefix (h : t.Standing l) (hp : l' <+: l) : t.Standing l' :=
  fun above ha => h above (ha.trans hp)

theorem Standing.grows (h : t.Standing l) (hg : t.Grows t') : t'.Standing l :=
  fun above ha => hg.isDirectory (h above ha)

theorem Standing.reached (h : t.Standing l) : t.Reached l where
  there := by rw [find?_of_isDirectory (h l (List.prefix_refl l))]; rfl
  above := h.prefix (List.dropLast_prefix l)

theorem Reached.standing (h : t.Reached l) (hd : t.isDirectory l = true) : t.Standing l := by
  rintro above ⟨rest, rfl⟩
  by_cases hr : rest = []
  · rw [hr, List.append_nil] at hd
    exact hd
  · apply h.above
    rw [List.dropLast_append_of_ne_nil hr]
    exact List.prefix_append above rest.dropLast

theorem step_ok (h : t.step l name = .ok l') :
    t.isDirectory l = true ∧
      (name = Path.here ∧ l' = l ∨ name = Path.above ∧ l' = l.dropLast ∨
        name ≠ Path.here ∧ name ≠ Path.above ∧ ¬ Path.longestName < Utf8.size name ∧
          l' = l ++ [name] ∧ (t.find? l').isSome = true) := by
  unfold step at h
  split at h
  next => cases h
  next hd =>
    refine ⟨by simpa using hd, ?_⟩
    split at h
    next hh =>
      cases h
      exact .inl ⟨hh, rfl⟩
    next hh =>
      split at h
      next ha =>
        cases h
        exact .inr (.inl ⟨ha, rfl⟩)
      next ha =>
        split at h
        next => cases h
        next hn =>
          split at h
          next hf =>
            cases h
            exact .inr (.inr ⟨hh, ha, hn, rfl, hf⟩)
          next => cases h

theorem step_reached (h : t.Reached l) (hs : t.step l name = .ok l') : t.Reached l' := by
  obtain ⟨hd, ⟨_, rfl⟩ | ⟨_, rfl⟩ | ⟨_, _, _, rfl, hf⟩⟩ := step_ok hs
  · exact h
  · exact h.above.reached
  · refine ⟨hf, ?_⟩
    rw [List.dropLast_concat]
    exact h.standing hd

theorem walk_reached (h : t.Reached l) (hw : t.walk l names = .ok l') : t.Reached l' := by
  induction names generalizing l with
  | nil =>
    cases hw
    exact h
  | cons name rest ih =>
    simp only [walk] at hw
    split at hw
    next next hs => exact ih (step_reached h hs) hw
    next => cases hw

theorem walk_concat (h : t.walk l (names ++ [name]) = .ok l') :
    ∃ parent, t.walk l names = .ok parent ∧ t.step parent name = .ok l' := by
  induction names generalizing l with
  | nil =>
    simp only [List.nil_append, walk] at h
    split at h
    next next hs =>
      cases h
      exact ⟨l, rfl, hs⟩
    next => cases h
  | cons first rest ih =>
    simp only [List.cons_append, walk] at h ⊢
    split at h
    next next hs => exact ih h
    next => cases h

theorem start_standing (h : t.Standing directory) (path : Text) :
    t.Standing (Path.start directory path) := by
  unfold Path.start
  split
  next => exact standing_nil t
  next => exact h

end Tree

def Node.obstacle : Node → Option Errno
  | directory => some .isDirectory
  | file _ _ => none
  | program _ => some .readOnly

namespace Tree

variable {t : Tree} {l l' : Location} {name path : Text} {directory : Location}

theorem placeName_step {node : Node} (hs : t.step l name = .ok l') (hh : name ≠ Path.here)
    (ha : name ≠ Path.above) (hn : t.find? l' = some node) {slash : Bool}
    (hd : slash = true → t.isDirectory l' = true) :
    t.placeName l name slash = match node.obstacle with
      | none => .ok l'
      | some e => .error e := by
  obtain ⟨hparent, ⟨hname, _⟩ | ⟨hname, _⟩ | ⟨_, _, hlong, rfl, _⟩⟩ := step_ok hs
  · exact absurd hname hh
  · exact absurd hname ha
  · unfold placeName
    rw [if_neg (by simp [hparent])]
    by_cases hslash : slash = true
    · rw [find?_of_isDirectory (hd hslash)] at hn
      cases hn
      rw [if_pos hslash]
      rfl
    · rw [if_neg hslash, if_neg hlong, hn]
      cases node <;> rfl

theorem isDirectory_of_dots (h : t.Reached l) (hs : t.step l name = .ok l')
    (hname : name = Path.here ∨ name = Path.above) : t.isDirectory l' = true := by
  obtain ⟨hd, ⟨_, rfl⟩ | ⟨_, rfl⟩ | ⟨hh, ha, _⟩⟩ := step_ok hs
  · exact hd
  · exact h.above _ (List.prefix_refl _)
  · rcases hname with rfl | rfl
    · exact absurd rfl hh
    · exact absurd rfl ha

/-- What a path leads to can be opened for writing, unless there is an
obstacle. -/
theorem place_of_locate (h : t.Standing directory) (hl : t.locate directory path = .ok l) :
    ∃ node, t.find? l = some node ∧
      t.place directory path = match node.obstacle with
        | none => .ok l
        | some e => .error e := by
  obtain ⟨hc, hw, hslash⟩ := locate_ok hl
  have hstart := start_standing h path
  obtain ⟨node, hnode⟩ := Option.isSome_iff_exists.mp (walk_reached hstart.reached hw).there
  refine ⟨node, hnode, ?_⟩
  rcases List.eq_nil_or_concat (Path.names path) with hnil | ⟨names, name, hnames⟩
  · -- only slashes: the walk ends where it starts
    rw [hnil] at hw
    cases hw
    rw [find?_of_isDirectory (hstart _ (List.prefix_refl _))] at hnode
    cases hnode
    simp only [place, hc, hnil, List.getLast?_nil]
    rfl
  · rw [List.concat_eq_append] at hnames
    rw [hnames] at hw
    obtain ⟨parent, hparent, hstep⟩ := walk_concat hw
    simp only [place, hc, hnames, List.getLast?_append, List.getLast?_singleton,
      List.dropLast_concat, hw, hparent, Option.some_or]
    by_cases hname : name = Path.here ∨ name = Path.above
    · have hd := isDirectory_of_dots (walk_reached hstart.reached hparent) hstep hname
      rw [find?_of_isDirectory hd] at hnode
      cases hnode
      rw [if_pos hname]
      rfl
    · rw [if_neg hname]
      rw [not_or] at hname
      exact placeName_step hstep hname.1 hname.2 hnode hslash

end Tree

def OpenMode.permission : OpenMode → Permission
  | read => .read
  | create | overwrite | append => .write

theorem OpenMode.permission_write {mode : OpenMode} (h : mode ≠ .read) :
    mode.permission = .write := by
  cases mode with
  | read => exact absurd rfl h
  | create | overwrite | append => rfl

section Opening

variable {p : Process} {w : World} {directory l : Location} {path : Text} {mode : OpenMode}
  {asked : Permission} {e : Errno} {node : Node}

theorem World.allows_of_node (hn : w.tree.find? l = some node) :
    w.allows asked l = w.rights.check asked l node := by
  simp only [allows, hn]

theorem Rights.check_error {r : Rights} (h : r.check asked l node = .error e) :
    (∃ program, node = .program program) ∧ e = .readOnly ∨ e = .accessDenied := by
  unfold check at h
  split at h
  next =>
    cases h
    exact .inl ⟨⟨_, rfl⟩, rfl⟩
  next =>
    split at h
    next => cases h
    next =>
      cases h
      exact .inr rfl

theorem World.access_of_locate (hl : w.tree.locate directory path = .ok l) :
    w.access directory path (some asked) = w.allows asked l := by
  simp only [access, hl]

theorem World.access_ok (h : w.access directory path (some asked) = .ok ()) :
    ∃ l, w.tree.locate directory path = .ok l ∧ w.allows asked l = .ok () := by
  cases hl : w.tree.locate directory path with
  | error e =>
    simp only [access, hl] at h
    cases h
  | ok l =>
    rw [access_of_locate hl] at h
    exact ⟨l, rfl, h⟩

theorem World.openPath_read_error :
    w.openPath directory path .read = .error e ↔
      w.access directory path (some .read) = .error e := by
  unfold openPath access
  rw [if_pos rfl]
  cases w.tree.locate directory path with
  | error => simp
  | ok l => cases h : w.allows .read l <;> simp [h]

/-- Whether a file can be opened for writing does not depend on how it is to be
written. -/
theorem World.openPath_write_error (hm : mode ≠ .read) :
    w.openPath directory path mode = .error e ↔
      w.tree.place directory path = .error e ∨
        ∃ l, w.tree.place directory path = .ok l ∧ w.admits l = .error e := by
  unfold openPath
  rw [if_neg hm]
  cases w.tree.place directory path with
  | error => simp
  | ok l => cases h : w.admits l <;> simp [h]

theorem Process.openPath_error :
    p.openPath w path mode = .error e ↔
      Descriptors.limit ≤ p.descriptors.lowestFree ∧ e = .tooManyOpen ∨
        p.descriptors.lowestFree < Descriptors.limit ∧
          w.openPath p.directory path mode = .error e := by
  unfold openPath
  by_cases hroom : Descriptors.limit ≤ p.descriptors.lowestFree
  · simp [hroom, Nat.not_lt.mpr hroom, eq_comm]
  · simp only [hroom, if_false, false_and, false_or, Nat.lt_of_not_le hroom, true_and]
    cases w.openPath p.directory path mode <;> simp

theorem Process.openPath_forked_error :
    p.forked.openPath w path mode = .error e ↔ p.openPath w path mode = .error e := by
  rw [openPath_error, openPath_error]
  exact Iff.rfl

end Opening

namespace Wiring

/-- What the check does not foresee: a directory that may be written to, a file
that may be written but is being executed, and a table of descriptors without
room for another one. -/
inductive Unforeseen (p : Process) (w : World) (path : Text) (mode : OpenMode) : Errno → Prop
  | directory {l : Location} (hroom : p.descriptors.lowestFree < Descriptors.limit)
      (hm : mode ≠ .read) (hl : w.tree.locate p.directory path = .ok l)
      (hn : w.tree.find? l = some .directory) (ha : w.allows .write l = .ok ()) :
      Unforeseen p w path mode .isDirectory
  | running {l : Location} {bits : Nat} {content : Bytes}
      (hroom : p.descriptors.lowestFree < Descriptors.limit)
      (hm : mode ≠ .read) (hl : w.tree.locate p.directory path = .ok l)
      (hn : w.tree.find? l = some (.file bits content)) (ha : w.allows .write l = .ok ())
      (hr : w.rights.running.contains l = true) : Unforeseen p w path mode .textBusy
  | crowded (h : Descriptors.limit ≤ p.descriptors.lowestFree) :
      Unforeseen p w path mode .tooManyOpen

variable {p : Process} {w world : World} {path : Text} {mode : OpenMode} {l : Location}
  {e e' : Errno}

theorem not_unforeseen {bits : Nat} {content : Bytes}
    (hroom : p.descriptors.lowestFree < Descriptors.limit)
    (hl : w.tree.locate p.directory path = .ok l) (hf : w.tree.find? l = some (.file bits content))
    (hr : w.rights.running.contains l = false) : ¬ Unforeseen p w path mode e := by
  intro hu
  cases hu with
  | directory _ _ hl' hn =>
    cases hl.symm.trans hl'
    cases hf.symm.trans hn
  | running _ _ hl' _ _ hr' =>
    cases hl.symm.trans hl'
    cases hr.symm.trans hr'
  | crowded hcrowded => omega

theorem access_of_verifyFile (h : verifyFile path mode p w = .ok world) :
    world.access p.directory path (some mode.permission) = .ok () := by
  unfold verifyFile at h
  split at h
  next hm =>
    obtain ⟨ha, rfl⟩ := permitted_ok.mp h
    rw [hm]
    exact ha
  next hm =>
    rw [OpenMode.permission_write hm]
    split at h
    next made _ =>
      obtain ⟨ha, rfl⟩ := permitted_ok.mp h
      exact ha
    next => cases h

theorem openPath_writable (hs : w.tree.Standing p.directory) (hm : mode ≠ .read)
    (hroom : p.descriptors.lowestFree < Descriptors.limit)
    (hl : w.tree.locate p.directory path = .ok l) (ha : w.allows .write l = .ok ()) :
    w.openPath p.directory path mode = .error e ↔ Unforeseen p w path mode e := by
  obtain ⟨node, hnode, hplace⟩ := Tree.place_of_locate hs hl
  rw [World.openPath_write_error hm, hplace]
  cases node with
  | directory =>
    constructor
    · rintro (he | ⟨_, he, _⟩)
      · cases he
        exact .directory hroom hm hl hnode ha
      · cases he
    · intro hu
      cases hu with
      | directory => exact .inl rfl
      | running _ _ hl' hn' =>
        cases hl.symm.trans hl'
        cases hnode.symm.trans hn'
      | crowded hcrowded => omega
  | file bits content =>
    have hadmits : w.admits l =
        if w.rights.running.contains l then .error .textBusy else .ok () := by
      simp [World.admits, hnode, ha]
    constructor
    · rintro (he | ⟨_, hl', he⟩)
      · cases he
      · cases hl'
        rw [hadmits] at he
        split at he
        next hr =>
          cases he
          exact .running hroom hm hl hnode ha hr
        next => cases he
    · intro hu
      cases hu with
      | directory _ _ hl' hn' =>
        cases hl.symm.trans hl'
        cases hnode.symm.trans hn'
      | running _ _ hl' hn' _ hr =>
        cases hl.symm.trans hl'
        exact .inr ⟨l, rfl, by rw [hadmits, if_pos hr]⟩
      | crowded hcrowded => omega
  | program program =>
    rw [World.allows_of_node hnode] at ha
    cases ha

theorem openPath_permitted (hs : w.tree.Standing p.directory)
    (ha : w.access p.directory path (some mode.permission) = .ok ()) :
    p.openPath w path mode = .error e ↔ Unforeseen p w path mode e := by
  rw [Process.openPath_error]
  by_cases hroom : Descriptors.limit ≤ p.descriptors.lowestFree
  · constructor
    · rintro (⟨_, rfl⟩ | ⟨hlt, _⟩)
      · exact .crowded hroom
      · omega
    · intro hu
      cases hu with
      | directory hlt | running hlt => omega
      | crowded => exact .inl ⟨hroom, rfl⟩
  · have hlt := Nat.lt_of_not_le hroom
    simp only [hroom, false_and, false_or, hlt, true_and]
    by_cases hm : mode = .read
    · subst hm
      rw [World.openPath_read_error, show w.access p.directory path (some .read) = .ok () from ha]
      refine iff_of_false (by simp) fun hu => ?_
      cases hu with
      | directory _ hm | running _ hm => exact hm rfl
      | crowded hcrowded => exact hroom hcrowded
    · rw [OpenMode.permission_write hm] at ha
      obtain ⟨l, hl, hallows⟩ := World.access_ok ha
      exact openPath_writable hs hm hlt hl hallows

/-- The check finds a file that cannot be opened, unless for a reason that it
does not foresee. A directory that may not be written to is refused for that. -/
theorem verifyFile_refuses (hs : w.tree.Standing p.directory)
    (h : p.openPath w path mode = .error e) (hu : ¬ Unforeseen p w path mode e) :
    ∃ e', verifyFile path mode p w = .error (e', w) ∧
      (e' = e ∨ e = .isDirectory ∧ e' = .accessDenied) := by
  rcases Process.openPath_error.mp h with ⟨hcrowded, rfl⟩ | ⟨hroom, hopen⟩
  · exact absurd (.crowded hcrowded) hu
  by_cases hm : mode = .read
  · subst hm
    have hrefused : permitted .read path p w = .error (e, w) :=
      permitted_error.mpr ⟨World.openPath_read_error.mp hopen, rfl⟩
    exact ⟨e, by rw [verifyFile, if_pos rfl, hrefused], .inl rfl⟩
  simp only [verifyFile, if_neg hm]
  cases hl : w.tree.locate p.directory path with
  | error e' =>
    -- The trial fails where the child would.
    have hcreate : p.openPath w path .create = .error e :=
      Process.openPath_error.mpr (.inr ⟨hroom, (World.openPath_write_error (by simp)).mpr
        ((World.openPath_write_error hm).mp hopen)⟩)
    refine ⟨e, ?_, .inl rfl⟩
    simp only [present, World.access, hl, hcreate, Except.map]
  | ok l =>
    have hpresent : present path p w = .ok w := by simp only [present, World.access, hl]
    have hrefused {e' : Errno} (ha : w.allows .write l = .error e') :
        permitted .write path p w = .error (e', w) :=
      permitted_error.mpr ⟨(World.access_of_locate hl).trans ha, rfl⟩
    obtain ⟨node, hnode, hplace⟩ := Tree.place_of_locate hs hl
    cases ha : w.allows .write l with
    | ok => exact absurd ((openPath_writable hs hm hroom hl ha).mp hopen) hu
    | error e' =>
      refine ⟨e', by rw [hpresent]; exact hrefused ha, ?_⟩
      rw [World.openPath_write_error hm, hplace] at hopen
      cases node with
      | directory =>
        rw [World.allows_of_node hnode] at ha
        rcases Rights.check_error ha with ⟨⟨_, hprogram⟩, _⟩ | rfl
        · cases hprogram
        · rcases hopen with hopen | ⟨_, hopen, _⟩ <;> cases hopen
          exact .inr ⟨rfl, rfl⟩
      | file bits content =>
        rcases hopen with hopen | ⟨_, hplaced, hopen⟩
        · cases hopen
        · cases hplaced
          have hadmits : w.admits l = .error e' := by simp [World.admits, hnode, ha]
          cases hadmits.symm.trans hopen
          exact .inl rfl
      | program =>
        rw [World.allows_of_node hnode] at ha
        cases ha
        rcases hopen with hopen | ⟨_, hopen, _⟩ <;> cases hopen
        exact .inl rfl

theorem verify_file_ok {onto : List Int} :
    (file path mode onto).verify p w = .ok world ↔ verifyFile path mode p w = .ok world := by
  cases h : verifyFile path mode p w <;> simp [verify, h]

/-- Of a wiring that fails, the call says whether the file could be opened. -/
theorem wire_open_error {onto : List Int} :
    ((file path mode onto).wire p w).1 = .error (.systemCall "open" e) ↔
      p.openPath w path mode = .error e := by
  cases ho : p.openPath w path mode with
  | error e' => simp [wire, ho]
  | ok opened =>
    obtain ⟨fd, p', w'⟩ := opened
    have hcalls : ("dup2" : Text) ≠ "open" := by decide +kernel
    cases hc : copyOnto fd onto p' <;> simp [wire, ho, hc, hcalls]

end Wiring

/-- A redirection to a file that passes its check: what the child fails to open
is a directory that may be written to or a file that is being executed, or there
is no room for a descriptor. Whatever else cannot be opened is reported by the
shell itself, and no child is forked. -/
theorem ShellState.check_foresees {s : ShellState} {r : Redirection}
    {path : Text} {mode : OpenMode} {onto : List Int}
    (hs : s.world.tree.Standing s.process.directory)
    (hr : Wiring.ofRedirection r = .ok (.file path mode onto)) :
    (∀ world, (Wiring.file path mode onto).verify s.process s.world = .ok world →
      ((∀ e, ¬ Wiring.Unforeseen s.process world path mode e) →
        ∃ opened, s.process.forked.openPath world path mode = .ok opened) ∧
      ∀ e, ((Wiring.file path mode onto).wire s.process.forked world).1 =
          .error (.systemCall "open" e) ↔
        Wiring.Unforeseen s.process world path mode e) ∧
    ∀ e, s.process.openPath s.world path mode = .error e →
      ¬ Wiring.Unforeseen s.process s.world path mode e →
      ∃ e', (e' = e ∨ e = .isDirectory ∧ e' = .accessDenied) ∧
        ∀ host body, s.runRedirected host r body =
          (s.log host.toEnvironment .error (Failure.redirect path e'.description).message).finish
            1 := by
  refine ⟨fun world hv => ?_, fun e he hu => ?_⟩
  · rw [Wiring.verify_file_ok] at hv
    have hgrown := (Wiring.verifyFile_grows hv).1
    have hopen (e : Errno) : s.process.forked.openPath world path mode = .error e ↔
        Wiring.Unforeseen s.process world path mode e := by
      rw [Process.openPath_forked_error,
        Wiring.openPath_permitted (hs.grows hgrown.tree) (Wiring.access_of_verifyFile hv)]
    refine ⟨fun hnone => ?_, fun e => ?_⟩
    · cases ho : s.process.forked.openPath world path mode with
      | ok opened => exact ⟨opened, rfl⟩
      | error e => exact absurd ((hopen e).mp ho) (hnone e)
    · rw [Wiring.wire_open_error, hopen e]
  · obtain ⟨e', hverify, hreason⟩ := Wiring.verifyFile_refuses hs he hu
    refine ⟨e', hreason, fun host body => ?_⟩
    simp only [runRedirected, hr, Wiring.verify, hverify]

def Console.withDirectory : ShellState :=
  ⟨process 1 [], world ⟨[([['d']], .directory)]⟩ [], 0⟩

/-- For `> d/a` the file is made by the check, and the child can open it; for
`> b/a` it cannot be made, which the shell reports. -/
theorem ShellState.check_foresees_made_and_missing :
    (∃ world opened, (Wiring.file ['d', '/', 'a'] .overwrite [1]).verify
        Console.withDirectory.process Console.withDirectory.world = .ok world ∧
      Console.withDirectory.process.forked.openPath world ['d', '/', 'a'] .overwrite =
        .ok opened) ∧
    ∀ host, Console.withDirectory.runRedirected host
        (.overwrite none (.word ⟨.command, ['b', '/', 'a'], ⟨1, 3⟩⟩)) idle =
      (Console.withDirectory.log host.toEnvironment .error
        (Failure.redirect ['b', '/', 'a'] Errno.noEntry.description).message).finish 1 := by
  have hstanding : Console.withDirectory.world.tree.Standing
      Console.withDirectory.process.directory := Tree.standing_nil _
  have hroom : Console.withDirectory.process.descriptors.lowestFree < Descriptors.limit := by
    decide +kernel
  constructor
  · have hmade : ((Wiring.file ['d', '/', 'a'] .overwrite [1]).verify Console.withDirectory.process
        Console.withDirectory.world).toOption.map (fun world =>
          ((world.tree.locate [] ['d', '/', 'a']).toOption, world.tree.find? [['d'], ['a']],
            world.rights.running)) = some (some [['d'], ['a']], some (.file 0o644 []), []) := by
      decide +kernel
    have hwiring : Wiring.ofRedirection
        (.overwrite none (.word ⟨.command, ['d', '/', 'a'], ⟨1, 3⟩⟩)) =
          .ok (.file ['d', '/', 'a'] .overwrite [1]) := rfl
    cases hv : (Wiring.file ['d', '/', 'a'] .overwrite [1]).verify Console.withDirectory.process
        Console.withDirectory.world with
    | error failure =>
      rw [hv] at hmade
      cases hmade
    | ok world =>
      rw [hv] at hmade
      obtain ⟨hplace, hfound⟩ := Prod.mk.inj (Option.some.inj hmade)
      obtain ⟨hfile, hrunning⟩ := Prod.mk.inj hfound
      cases hl : world.tree.locate [] ['d', '/', 'a'] with
      | error e =>
        rw [hl] at hplace
        cases hplace
      | ok l =>
        rw [hl] at hplace
        cases hplace
        have hforeseen := fun e => @Wiring.not_unforeseen Console.withDirectory.process world
          ['d', '/', 'a'] .overwrite _ e _ _ hroom hl hfile (by rw [hrunning]; rfl)
        obtain ⟨opened, ho⟩ := ((check_foresees hstanding hwiring).1 world hv).1 hforeseen
        exact ⟨world, opened, rfl, ho⟩
  · intro host
    have hmissing : Console.withDirectory.world.tree.locate Console.withDirectory.process.directory
        ['b', '/', 'a'] = .error .noEntry := rfl
    have hopen : Console.withDirectory.process.openPath Console.withDirectory.world
        ['b', '/', 'a'] .overwrite = .error .noEntry :=
      Process.openPath_error.mpr (.inr ⟨hroom, rfl⟩)
    have hwiring : Wiring.ofRedirection
        (.overwrite none (.word ⟨.command, ['b', '/', 'a'], ⟨1, 3⟩⟩)) =
          .ok (.file ['b', '/', 'a'] .overwrite [1]) := rfl
    obtain ⟨e', rfl | ⟨he, _⟩, hreported⟩ := (check_foresees hstanding hwiring).2 .noEntry hopen
      fun hu => by cases hu
    · exact hreported host idle
    · cases he

/-- A directory passes the check, and the child cannot open it. -/
theorem Wiring.directory_passes_check :
    ∃ world,
      (file ['d'] .overwrite [1]).verify Console.withDirectory.process Console.withDirectory.world =
        .ok world ∧
      ((file ['d'] .overwrite [1]).wire Console.withDirectory.process.forked world).1 =
        .error (.systemCall "open" .isDirectory) := by
  have hlocated : Console.withDirectory.world.tree.locate Console.withDirectory.process.directory
      ['d'] = .ok [['d']] := by
    rfl
  have hverify : verifyFile ['d'] .overwrite Console.withDirectory.process
      Console.withDirectory.world = .ok Console.withDirectory.world := by
    rfl
  refine ⟨Console.withDirectory.world, verify_file_ok.mpr hverify, ?_⟩
  rw [wire_open_error, Process.openPath_forked_error, Process.openPath_error]
  exact .inr ⟨by decide +kernel, rfl⟩

end TinyShell
