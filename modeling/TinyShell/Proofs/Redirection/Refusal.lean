import TinyShell.Proofs.Redirection.Check
import TinyShell.Proofs.Redirection.Writing
import TinyShell.Proofs.Status.Pipelines

/-!
# Chains that are broken off

A redirection can be refused by the check of its file, or in the child, which
could not open the file or bind the descriptors. What stands to its left is
not looked at then. One error is reported, by the shell that made the check or
by the child, and the status 1 passes through all shells above.
-/

set_option autoImplicit false

namespace TinyShell

structure Record where
  process : Process
  severity : Severity
  message : Text

namespace World

/-- The world after records were written, the first one first. The line of a
record goes to the errors of its process, if the logger admits it. -/
def logged (env : Environment) (records : List Record) (w : World) : World :=
  records.foldl
    (fun w record =>
      if env.logger.admits record.severity then
        record.process.say w 2 (Utf8.encode (env.logger.line record.severity record.message))
      else w) w

variable {env : Environment} {record : Record} {records others : List Record} {w : World}

theorem logged_append :
    w.logged env (records ++ others) = (w.logged env records).logged env others :=
  List.foldl_append

theorem log_world (severity : Severity) (message : Text) (s : ShellState) :
    (s.log env severity message).world = s.world.logged env [⟨s.process, severity, message⟩] := by
  simp only [logged, List.foldl_cons, List.foldl_nil, ShellState.log]
  split <;> rfl

theorem logged_cons :
    w.logged env (record :: records) = (w.logged env [record]).logged env records := rfl

theorem logged_admitted (h : env.logger.admits record.severity = true) :
    w.logged env [record] =
      record.process.say w 2 (Utf8.encode (env.logger.line record.severity record.message)) := by
  simp only [logged, List.foldl_cons, List.foldl_nil, h, if_true]

theorem logged_hidden (h : ∀ record ∈ records, env.logger.admits record.severity = false) :
    w.logged env records = w := by
  induction records with
  | nil => rfl
  | cons record rest ih =>
    have hfirst : w.logged env [record] = w := by
      simp [logged, h record (by simp)]
    rw [logged_cons, hfirst]
    exact ih fun other ho => h other (by simp [ho])

theorem logged_frame (w : World) (record : Record) :
    (w.logged env [record]).channels = w.channels ∧
      ∀ l, record.process.channel? w 2 ≠ some (.file l) →
        (w.logged env [record]).tree.find? l = w.tree.find? l := by
  simp only [logged, List.foldl_cons, List.foldl_nil]
  split
  next => exact Process.say_frame
  next => exact ⟨rfl, fun _ _ => rfl⟩

/-- Records change the files that the errors of their processes go to. -/
theorem logged_elsewhere {l : Location}
    (h : ∀ record ∈ records, record.process.channel? w 2 ≠ some (.file l)) :
    (w.logged env records).tree.find? l = w.tree.find? l := by
  induction records generalizing w with
  | nil => rfl
  | cons record rest ih =>
    obtain ⟨hchannels, hfiles⟩ := @logged_frame env w record
    have hrest : ∀ other ∈ rest,
        other.process.channel? (w.logged env [record]) 2 ≠ some (.file l) := by
      intro other ho
      rw [Process.channel?, hchannels]
      exact h other (by simp [ho])
    rw [logged_cons]
    exact (ih hrest).trans (hfiles l (h record (by simp)))

end World

namespace World

structure Touched (directory : Location) (path? : Option Text) (w w' : World) : Prop where
  grows : w.Grows w'
  elsewhere : ∀ l, (∀ path ∈ path?, w'.tree.locate directory path ≠ .ok l) →
    w'.tree.find? l = w.tree.find? l

variable {w w' w'' : World} {directory : Location} {path? : Option Text}

theorem Touched.refl (w : World) : w.Touched directory path? w := ⟨.refl w, fun _ _ => rfl⟩

theorem Touched.trans (h : Touched directory path? w w') (h' : Touched directory path? w' w'') :
    Touched directory path? w w'' := by
  refine ⟨h.grows.trans h'.grows, fun l hl => ?_⟩
  have hbefore : ∀ path ∈ path?, w'.tree.locate directory path ≠ .ok l := by
    intro path hp hlocated
    exact hl path hp (Tree.locate_grows h'.grows.tree hlocated)
  rw [h'.elsewhere l hl, h.elsewhere l hbefore]

theorem openPath_touched {path : Text} {mode : OpenMode} {id : Nat}
    (h : w.openPath directory path mode = .ok (w', id)) :
    w.Touched directory (some path) w' := by
  obtain ⟨_, hopened⟩ := openPath_opened h
  refine ⟨hopened.grows, fun l hl => ?_⟩
  unfold openPath at h
  split at h
  next =>
    split at h
    next => cases h
    next =>
      split at h <;> cases h
      rfl
  next =>
    split at h
    next => cases h
    next target ht =>
      split at h <;> cases h
      apply prepared_of_ne
      rintro rfl
      exact hl path rfl (prepared_located (Tree.place_ok ht))

def Withheld (w : World) : Prop := w.rights.superuser = false ∧ w.rights.umask &&& 0o200 ≠ 0

theorem withheld_of_check {w : World} {l : Location} {bits : Nat} {content : Bytes} {e : Errno}
    (hb : bits &&& 0o200 ≠ 0)
    (h : (w.rights.own l).check .write l (.file (w.rights.created bits) content) = .error e) :
    w.Withheld := by
  have howner : (w.rights.own l).role l = .owner := by simp [Rights.own]
  simp only [Rights.check, howner, Permission.bit, Node.mode] at h
  split at h
  next => cases h
  next hn =>
    simp only [Bool.or_eq_true, bne_iff_ne, not_or, Bool.not_eq_true, Decidable.not_not] at hn
    refine ⟨hn.1, fun hu => hb ?_⟩
    -- A mask without the bit would have left it in the mode.
    have hcleared := hn.2
    rw [Rights.created, Nat.and_xor_distrib_right, Nat.and_assoc bits, hu, Nat.and_zero,
      Nat.xor_zero] at hcleared
    exact hcleared

end World

namespace Wiring

def path? : Wiring → Option Text
  | file path _ _ => some path
  | merge _ _ => none

variable {wiring : Wiring} {p : Process} {w w' : World}

theorem path?_ofRedirection {r : Redirection} (h : ofRedirection r = .ok wiring) :
    wiring.path? = r.target?.map Expression.text := by
  cases ofRedirection_serves h with
  | file ht =>
    rw [ht]
    rfl
  | merge _ hm =>
    cases r with
    | mergeStream => rfl
    | _ => cases hm

theorem verifyFile_touched {path : Text} {mode : OpenMode}
    (h : verifyFile path mode p w = .ok w' ∨ ∃ e, verifyFile path mode p w = .error (e, w')) :
    w.Touched p.directory (some path) w' := by
  rcases verifyFile_made h with rfl | ⟨_, fd, p', ho⟩
  · exact .refl _
  · obtain ⟨_, _, id, hworld, _⟩ := openPath_descriptors ho
    exact World.openPath_touched hworld

theorem Made.fresh {path : Text} (h : Made path p w w') :
    ∃ l, w.tree.find? l = none ∧ w'.tree.locate p.directory path = .ok l ∧
      w'.tree.find? l = some (.file (w.rights.created World.newFileMode) []) ∧
      w'.rights = w.rights.own l := by
  obtain ⟨hmissing, fd, p', ho⟩ := h
  obtain ⟨_, _, id, hworld, _⟩ := openPath_descriptors ho
  simp only [World.openPath, reduceCtorEq, if_false] at hworld
  split at hworld
  next => cases hworld
  next l hl =>
    have hplaces := Tree.place_ok hl
    have hvacant : w.tree.find? l = none := by
      refine Option.not_isSome_iff_eq_none.mp fun hs => hmissing ?_
      simp only [World.access, hplaces.located w.tree (.refl _) hs]
    split at hworld
    next => cases hworld
    next =>
      cases hworld
      have hput : World.prepared w.tree l .create (w.rights.created World.newFileMode) =
          w.tree.put l (.file (w.rights.created World.newFileMode) []) := by
        simp only [World.prepared, hvacant]
      refine ⟨l, hvacant, World.prepared_located hplaces, ?_, ?_⟩
      · show (World.prepared w.tree l .create _).find? l = _
        rw [hput]
        exact Tree.find?_put_self _ _ _ hplaces.ne_nil
      · show (if (w.tree.find? l).isNone then w.rights.own l else w.rights) = _
        rw [hvacant]
        rfl

/-- A check that fails has changed nothing, unless it has made a file that the
user may not write. -/
theorem verifyFile_withheld {path : Text} {mode : OpenMode} {e : Errno}
    (h : verifyFile path mode p w = .error (e, w')) :
    w' = w ∨ w.Withheld ∧ ∃ l bits, w.tree.find? l = none ∧
      w'.tree.locate p.directory path = .ok l ∧ w'.tree.find? l = some (.file bits []) := by
  unfold verifyFile at h
  split at h
  next => exact .inl (permitted_error.mp h).2
  next =>
    split at h
    next made hmade =>
      obtain ⟨ha, rfl⟩ := permitted_error.mp h
      rcases present_ok hmade with rfl | hmade
      · exact .inl rfl
      · obtain ⟨l, hvacant, hlocated, hfile, hrights⟩ := hmade.fresh
        rw [World.access_of_locate hlocated, World.allows_of_node hfile, hrights] at ha
        exact .inr ⟨World.withheld_of_check (by decide) ha, l, _, hvacant, hlocated, hfile⟩
    next =>
      cases h
      exact .inl rfl

theorem verify_touched
    (h : wiring.verify p w = .ok w' ∨ ∃ failure, wiring.verify p w = .error (failure, w')) :
    w.Touched p.directory wiring.path? w' := by
  cases wiring with
  | merge source destination =>
    rcases h with h | ⟨_, h⟩ <;> cases h
    exact .refl w
  | file path mode onto =>
    apply verifyFile_touched
    simp only [verify] at h
    split at h
    next hv =>
      rcases h with h | ⟨_, h⟩ <;> cases h
      exact .inl hv
    next e made hv =>
      rcases h with h | ⟨_, h⟩ <;> cases h
      exact .inr ⟨e, hv⟩

theorem verify_withheld {failure : Failure} (h : wiring.verify p w = .error (failure, w')) :
    w' = w ∨ w.Withheld ∧ ∃ l bits, w.tree.find? l = none ∧
      (∀ path ∈ wiring.path?, w'.tree.locate p.directory path = .ok l) ∧
      w'.tree.find? l = some (.file bits []) := by
  cases wiring with
  | merge source destination => cases h
  | file path mode onto =>
    simp only [verify] at h
    split at h
    next => cases h
    next hv =>
      cases h
      rcases verifyFile_withheld hv with rfl | ⟨hw, l, bits, hvacant, hlocated, hfile⟩
      · exact .inl rfl
      · refine .inr ⟨hw, l, bits, hvacant, fun path' hp => ?_, hfile⟩
        cases hp
        exact hlocated

/-- A wiring that fails may have opened its file, like one that does not. -/
theorem wire_touched (wiring : Wiring) (p : Process) (w : World) :
    w.Touched p.directory wiring.path? (wiring.wire p w).2 := by
  cases wiring with
  | merge source destination =>
    simp only [wire]
    split <;> exact .refl w
  | file path mode onto =>
    simp only [wire]
    split
    next => exact .refl w
    next fd p' w' ho =>
      obtain ⟨_, _, id, hworld, _⟩ := openPath_descriptors ho
      have htouched := World.openPath_touched hworld
      split <;> exact htouched

end Wiring

/-- A shell of the chain notes something. The shells of a chain are the first one
and those that have done redirections from the last one on. -/
def Record.Notes (env : Environment) (s : ShellState) (rs : List Redirection) (record : Record) :
    Prop :=
  record.severity = .debug ∧ ∃ outer state, outer <:+ rs ∧
    ShellState.descend env s outer = some state ∧ record.process = state.process.forking

theorem Record.Notes.cons {env : Environment} {s : ShellState} {rs : List Redirection}
    {record : Record} (h : record.Notes env s rs) (r : Redirection) :
    record.Notes env s (r :: rs) := by
  obtain ⟨hdebug, outer, state, hsuffix, hs, hp⟩ := h
  exact ⟨hdebug, outer, state, hsuffix.trans (List.suffix_cons r rs), hs, hp⟩

def Redirection.Heard (env : Environment) (s : ShellState) (w : World) (l : Location)
    (rs : List Redirection) : Prop :=
  ∃ outer state, outer <:+ rs ∧ ShellState.descend env s outer = some state ∧
    state.process.channel? w 2 = some (.file l)

/-- The location is where the target of one of the redirections leads. A target
is expanded by the process that does its redirection, which is as many forks
away as redirections stand to the right. -/
def Redirection.Aimed (env : Environment) (s : ShellState) (t : Tree) (l : Location) :
    List Redirection → Prop
  | [] => False
  | r :: outer =>
    (∃ target, r.target? = some target ∧ t.locate s.process.directory
      (target.mapWords (Expansion.expand env.home (s.process.pid + outer.length))).text = .ok l) ∨
    Aimed env s t l outer

theorem Redirection.Aimed.grows {env : Environment} {s : ShellState} {t t' : Tree} {l : Location}
    {rs : List Redirection} (hg : t.Grows t') (h : Aimed env s t l rs) : Aimed env s t' l rs := by
  induction rs with
  | nil => exact h
  | cons r outer ih =>
    rcases h with ⟨target, ht, hl⟩ | h
    · exact .inl ⟨target, ht, Tree.locate_grows hg hl⟩
    · exact .inr (ih h)

namespace ShellState

variable {env : Environment} {r : Redirection} {rs outer : List Redirection}
  {s state child : ShellState} {wiring : Wiring} {world : World} {l : Location}

theorem descend_process (h : descend env s rs = some child) :
    child.process.pid = s.process.pid + rs.length ∧
      child.process.directory = s.process.directory := by
  obtain ⟨bs, hbs, hlinked⟩ := Binding.linked_of_descend h
  obtain ⟨hpid, hdirectory, _⟩ := Binding.linked_frame hlinked
  rw [← hbs, List.length_map]
  exact ⟨hpid, hdirectory⟩

theorem wire_verified_touched (hw : Wiring.ofRedirection (r.expand env s) = .ok wiring)
    (hv : wiring.verify s.process s.world = .ok world) :
    s.world.Touched s.process.directory ((r.expand env s).target?.map Expression.text)
      (wiring.wire s.process.forked world).2 := by
  rw [← Wiring.path?_ofRedirection hw]
  exact (Wiring.verify_touched (.inl hv)).trans (Wiring.wire_touched wiring s.process.forked world)

theorem touched_elsewhere (hd : descend env s outer = some state)
    (ht : state.world.Touched state.process.directory
      ((r.expand env state).target?.map Expression.text) world)
    (hl : ¬ Redirection.Aimed env s world.tree l (r :: outer)) :
    ¬ Redirection.Aimed env s state.world.tree l outer ∧
      world.tree.find? l = state.world.tree.find? l := by
  obtain ⟨hpid, hdirectory⟩ := descend_process hd
  refine ⟨fun h => hl (.inr (h.grows ht.grows.tree)), ht.elsewhere l fun path hp hlocated => ?_⟩
  rw [Redirection.expand, Redirection.target?_mapTarget, Option.map_map] at hp
  obtain ⟨target, htarget, rfl⟩ := Option.map_eq_some_iff.mp hp
  apply hl
  refine .inl ⟨target, htarget, ?_⟩
  rw [← hpid, ← hdirectory]
  exact hlocated

/-- Where the target of a redirection leads, unless the ones after it have it
too. -/
theorem aimed_path {t : Tree} (hd : descend env s outer = some state)
    (hw : Wiring.ofRedirection (r.expand env state) = .ok wiring)
    (ha : Redirection.Aimed env s t l (r :: outer)) (hl : ¬ Redirection.Aimed env s t l outer) :
    ∃ path ∈ wiring.path?, t.locate state.process.directory path = .ok l := by
  obtain ⟨hpid, hdirectory⟩ := descend_process hd
  rcases ha with ⟨target, htarget, hlocated⟩ | ha
  · rw [← hpid, ← hdirectory] at hlocated
    refine ⟨_, ?_, hlocated⟩
    rw [Wiring.path?_ofRedirection hw, Redirection.expand, Redirection.target?_mapTarget, htarget]
    rfl
  · exact absurd ha hl

theorem descend_elsewhere (h : descend env s rs = some child)
    (hl : ¬ Redirection.Aimed env s child.world.tree l rs) :
    child.world.tree.find? l = s.world.tree.find? l := by
  induction rs generalizing child with
  | nil =>
    cases h
    rfl
  | cons r outer ih =>
    obtain ⟨state, hs, he⟩ := descend_cons h
    obtain ⟨wiring, world, hw, hv, hd, _⟩ := entered_steps he
    have htouched := wire_verified_touched hw hv
    rw [hd] at htouched
    obtain ⟨houter, hstep⟩ := touched_elsewhere hs htouched hl
    rw [hstep, ih hs houter]

/-- Of a child that has been waited for nothing is reported any more. -/
theorem release_waited {g : Guard} {n : Nat} (h : g.status = some n) :
    (s.release env g).world = s.world := by
  have hsilent : (g.release s.process).1 = none := by
    unfold Guard.release
    split
    next => simp only [Guard.wait, h]
    next => rfl
  simp only [release, hsilent]

/-- The shell notes its fork, and that a redirection has come to its end. -/
theorem concluded_logged {done : Outcome × ShellState} (ht : done.1.isTold = true) :
    ∃ notes : List Record,
      (∀ record ∈ notes, record.severity = .debug ∧ record.process = s.process.forking) ∧
      (s.concluded env r done).2.world =
        (done.1.conclude env done.2).2.logged env notes := by
  have hnoted : (s.noted env (done.1.conclude env done.2).2).world =
      (done.1.conclude env done.2).2.logged env [⟨s.process.forking, .debug, s.forkNote⟩] :=
    World.log_world _ _ _
  simp only [concluded]
  rw [await_ofParent _ _ _ _ _ (by rw [noted_process]; rfl) (conclude_known ht), release_waited rfl]
  refine ⟨[⟨s.process.forking, .debug, s.forkNote⟩, ⟨s.process.forking, .debug,
    r.operator ++ " finished with " ++ Text.ofNat (done.1.conclude env done.2).1.status⟩],
    by simp, ?_⟩
  show (log env .debug _ (s.noted env _)).world = _
  rw [World.log_world, noted_process, hnoted, ← World.logged_append]
  rfl

/-- On the way back from the operand, the shells note their forks and that they
are done. -/
theorem ascend_logged {done : Outcome × ShellState} {n : Nat}
    (h : descend env s rs = some child) (hn : n ≤ 255) (hd : Recorded n done) :
    ∃ records : List Record, (∀ record ∈ records, record.Notes env s rs) ∧
      (ascend env s rs done).2.world = done.2.world.logged env records := by
  induction rs generalizing child done with
  | nil => exact ⟨[], by simp, rfl⟩
  | cons r outer ih =>
    obtain ⟨state, hs, _⟩ := descend_cons h
    simp only [ascend, hs]
    obtain ⟨notes, hown, hworld⟩ := @concluded_logged env (r.expand env state) state done hd.told
    have hrecorded := @concluded_recorded env state (r.expand env state) done
      (by rw [hd.rawStatus]; exact hn) hd.told
    rw [hd.rawStatus] at hrecorded
    obtain ⟨records, hnotes, hlogged⟩ := ih hs hrecorded
    refine ⟨notes ++ records, fun record hr => ?_, ?_⟩
    · rcases List.mem_append.mp hr with hr | hr
      · obtain ⟨hdebug, hprocess⟩ := hown record hr
        exact ⟨hdebug, outer, state, List.suffix_cons r outer, hs, hprocess⟩
      · exact (hnotes record hr).cons r
    · rw [hlogged, hworld, hd.outcome, ← World.logged_append]
      rfl

end ShellState

def ShellState.forkedInto (world : World) (s : ShellState) : ShellState :=
  { s.onProcess Process.forked with world := world }

namespace Redirection

/-- A redirection is refused, and some process has to report why. That is the
process itself if the check fails, and no child has been begun for it; else it is
the child. -/
inductive Refused (env : Environment) (r : Redirection) (s : ShellState) :
    List Redirection → ShellState → Failure → Prop
  | check {wiring : Wiring} {failure : Failure} {world : World}
      (hw : Wiring.ofRedirection (r.expand env s) = .ok wiring)
      (hv : wiring.verify s.process s.world = .error (failure, world)) :
      Refused env r s [] { s with world := world } failure
  | child {wiring : Wiring} {checked world : World} {failure : Failure}
      (hw : Wiring.ofRedirection (r.expand env s) = .ok wiring)
      (hv : wiring.verify s.process s.world = .ok checked)
      (hd : wiring.wire s.process.forked checked = (.error failure, world)) :
      Refused env r s [r] (s.forkedInto world) failure

variable {env : Environment} {r : Redirection} {s state reporter : ShellState}
  {begun outer : List Redirection} {failure : Failure} {l : Location}

/-- What becomes of a refused redirection does not depend on what it wraps. -/
theorem Refused.ends (h : r.Refused env s begun reporter failure) :
    ∃ done, (∀ body, s.runRedirected env (r.expand env s) body = done) ∧ Recorded 1 done ∧
      (begun = [] → done = (reporter.log env .error failure.message).finish 1) ∧
      ∃ records : List Record,
        (∀ record ∈ records, record.severity = .debug ∧ record.process = s.process.forking) ∧
        done.2.world = reporter.world.logged env
          (⟨reporter.process, .error, failure.message⟩ :: records) := by
  cases h with
  | @check _ _ world hw hv =>
    refine ⟨(ShellState.log env .error failure.message { s with world := world }).finish 1,
      fun body => ?_, finish_recorded _ _, fun _ => rfl, [], by simp, World.log_world _ _ _⟩
    simp only [ShellState.runRedirected, hw, hv]
  | @child wiring checked world _ hw hv hd =>
    obtain ⟨notes, hown, hworld⟩ := @ShellState.concluded_logged env (r.expand env s) s
      (.failed failure, s.forkedInto world) rfl
    have hrecorded := @ShellState.concluded_recorded env s (r.expand env s)
      (.failed failure, s.forkedInto world) (show 1 ≤ 255 by omega) rfl
    refine ⟨_, fun body => ?_, hrecorded, by simp, notes, hown, ?_⟩
    · simp only [ShellState.runRedirected_reliable, hw, hv, ShellState.forkNoted, ShellState.fork,
        ShellState.rewired, ShellState.onProcess, hd, ShellState.finishChild, ShellState.concluded,
        ShellState.noted, ShellState.forkNote, ShellState.forkedInto]
    · rw [hworld]
      show ((s.forkedInto world).log env .error failure.message).world.logged env _ = _
      rw [World.log_world, ← World.logged_append]
      rfl

/-- What has been touched when a redirection is refused: the targets of those
that are done, and its own. A check that has failed leaves its target as it was,
unless it has made a file that the user may not write. -/
theorem Refused.elsewhere (h : r.Refused env state begun reporter failure)
    (hd : ShellState.descend env s outer = some state)
    (hl : ¬ Aimed env s reporter.world.tree l outer) :
    reporter.world.tree.find? l = s.world.tree.find? l ∨
      Aimed env s reporter.world.tree l (r :: outer) ∧ (begun = [] → state.world.Withheld ∧
        s.world.tree.find? l = none ∧
        ∃ bits, reporter.world.tree.find? l = some (.file bits [])) := by
  by_cases haimed : Aimed env s reporter.world.tree l (r :: outer)
  · cases h with
    | @check wiring _ world hw hv =>
      have htouched : state.world.Touched state.process.directory
          ((r.expand env state).target?.map Expression.text) world := by
        rw [← Wiring.path?_ofRedirection hw]
        exact Wiring.verify_touched (.inr ⟨_, hv⟩)
      have hbefore : state.world.tree.find? l = s.world.tree.find? l :=
        ShellState.descend_elsewhere hd fun ha => hl (ha.grows htouched.grows.tree)
      rcases Wiring.verify_withheld hv with rfl | ⟨hwithheld, l', bits, hvacant, hlocated, hfile⟩
      · exact .inl hbefore
      · obtain ⟨path, hpath, haim⟩ := ShellState.aimed_path hd hw haimed hl
        obtain rfl : l' = l := Except.ok.inj ((hlocated path hpath).symm.trans haim)
        exact .inr ⟨haimed, fun _ => ⟨hwithheld, hbefore.symm.trans hvacant, bits, hfile⟩⟩
    | child => exact .inr ⟨haimed, by simp⟩
  · refine .inl ?_
    cases h with
    | check hw hv =>
      have htouched := Wiring.verify_touched (.inr ⟨_, hv⟩)
      rw [Wiring.path?_ofRedirection hw] at htouched
      obtain ⟨houter, hstep⟩ := ShellState.touched_elsewhere hd htouched haimed
      exact hstep.trans (ShellState.descend_elsewhere hd houter)
    | child hw hv hwire =>
      have htouched := ShellState.wire_verified_touched hw hv
      rw [hwire] at htouched
      obtain ⟨houter, hstep⟩ := ShellState.touched_elsewhere hd htouched haimed
      exact hstep.trans (ShellState.descend_elsewhere hd houter)

theorem Refused.process (h : r.Refused env s begun reporter failure) :
    reporter.process.pid = s.process.pid + begun.length ∧
      reporter.process.descriptors = s.process.descriptors := by
  cases h with
  | check => exact ⟨rfl, rfl⟩
  | child => exact ⟨rfl, rfl⟩

/-- All that is written for a refused redirection is one error, and then the
notes of the shells above. -/
theorem Refused.logged
    (h : r.Refused env state begun reporter failure)
    (hd : ShellState.descend env s outer = some state) :
    ∃ done, (∀ body, state.runRedirected env (r.expand env state) body = done) ∧
      Recorded 1 done ∧
      (begun = [] → done = (reporter.log env .error failure.message).finish 1) ∧
      ∃ records : List Record, (∀ record ∈ records, record.Notes env s outer) ∧
        (ShellState.ascend env s outer done).2.world = reporter.world.logged env
          (⟨reporter.process, .error, failure.message⟩ :: records) := by
  obtain ⟨done, hrun, hrecorded, hcheck, records, hparent, hworld⟩ := h.ends
  obtain ⟨later, hlater, hlogged⟩ := ShellState.ascend_logged hd (by decide) hrecorded
  refine ⟨done, hrun, hrecorded, hcheck, records ++ later, ?_, ?_⟩
  · intro record hrecord
    rcases List.mem_append.mp hrecord with hrecord | hrecord
    · obtain ⟨hdebug, hprocess⟩ := hparent record hrecord
      exact ⟨hdebug, outer, state, List.suffix_refl outer, hd, hprocess⟩
    · exact hlater record hrecord
  · rw [hlogged, hworld, ← World.logged_append]
    rfl

/-- Whoever reports or notes something is heard where the shells write their
errors. -/
theorem Refused.heard
    {records : List Record} {record : Record} {severity : Severity} {message : Text}
    (h : r.Refused env state begun reporter failure)
    (hd : ShellState.descend env s outer = some state)
    (hnotes : ∀ record ∈ records, record.Notes env s outer)
    (hr : record ∈ (⟨reporter.process, severity, message⟩ :: records : List Record))
    (hl : record.process.channel? reporter.world 2 = some (.file l)) :
    Heard env s reporter.world l outer := by
  rcases List.mem_cons.mp hr with rfl | hr
  · refine ⟨outer, state, List.suffix_refl outer, hd, ?_⟩
    rw [← hl, Process.channel?, Process.channel?, Process.opening?, Process.opening?, h.process.2]
  · obtain ⟨_, above, shell, hsuffix, hs, hprocess⟩ := hnotes record hr
    rw [hprocess] at hl
    exact ⟨above, shell, hsuffix, hs, hl⟩

/-- If a redirection comes to the same whatever it wraps, then the operand of the
chain and the redirections to the left do not matter. -/
theorem evaluate_cut {operand : Option Statement} {inner outer : List Redirection}
    {tree : Statement} {state : ShellState} {done : Outcome × ShellState}
    (hd : ShellState.descend env s outer = some state)
    (hrun : ∀ body, state.runRedirected env (r.expand env state) body = done)
    (ht : chained operand (inner ++ r :: outer) = some tree) :
    (tree.evaluate env s).effect = ShellState.ascend env s outer done := by
  have hcut : chained (some (r.around (chained operand inner))) outer = some tree := by
    rw [← ht]
    simp only [chained, List.foldl_append, List.foldl_cons]
  have heval := ShellState.evaluate_chained (some (r.around (chained operand inner))) hd
  rw [hcut, ShellState.evaluateOperand_around, hrun] at heval
  exact heval

end Redirection

/-- A chain is broken off at the last redirection that is refused, which is the
first one to be done. The status is 1 then, whatever the operand and the
redirections to the left are. The process that refuses reports one error, which
is the line that its logger makes of it, and the shells above note no more than
that they have forked and are done. If the check has failed, that process is the
one that was to fork a child, and has not. All files stay the same, but for those
that the shells write their errors to, the targets of the redirections that were
done, and that of the refused one. If its check has failed, this one can only have
been made, as an empty file that the user then may not write. -/
theorem refused_redirection_ends_chain {env : Environment} {operand : Option Statement}
    {inner outer begun : List Redirection} {r : Redirection} {tree : Statement}
    {s state reporter : ShellState} {failure : Failure}
    (ht : Redirection.chained operand (inner ++ r :: outer) = some tree)
    (hd : ShellState.descend env s outer = some state)
    (hr : r.Refused env state begun reporter failure) :
    Recorded 1 (tree.evaluate env s).effect ∧
    (∀ operand' inner' tree',
      Redirection.chained operand' (inner' ++ r :: outer) = some tree' →
      (tree'.evaluate env s).effect = (tree.evaluate env s).effect) ∧
    reporter.process.pid = s.process.pid + (begun ++ outer).length ∧
    (begun = [] → (tree.evaluate env s).effect =
      ShellState.ascend env s outer ((reporter.log env .error failure.message).finish 1)) ∧
    (∃ records : List Record, (∀ record ∈ records, record.Notes env s outer) ∧
      (tree.evaluate env s).state.world = reporter.world.logged env
        (⟨reporter.process, .error, failure.message⟩ :: records)) ∧
    (∀ l bits content, env.logger.admits .error = true → env.logger.admits .debug = false →
      reporter.process.Appends reporter.world 2 l none →
      reporter.world.tree.find? l = some (.file bits content) →
      (tree.evaluate env s).state.world.tree.find? l =
        some (.file bits (content ++ Utf8.encode (env.logger.line .error failure.message)))) ∧
    ∀ l, ¬ Redirection.Aimed env s reporter.world.tree l outer →
      ¬ Redirection.Heard env s reporter.world l outer →
      (tree.evaluate env s).state.world.tree.find? l = s.world.tree.find? l ∨
        Redirection.Aimed env s reporter.world.tree l (r :: outer) ∧
          (begun = [] → state.world.Withheld ∧ s.world.tree.find? l = none ∧
            ∃ bits, (tree.evaluate env s).state.world.tree.find? l = some (.file bits [])) := by
  obtain ⟨done, hrun, hrecorded, hcheck, records, hnotes, hworld⟩ := hr.logged hd
  have heffect := Redirection.evaluate_cut hd hrun ht
  have hfinal : (tree.evaluate env s).state.world = reporter.world.logged env
      (⟨reporter.process, .error, failure.message⟩ :: records) := by
    rw [← hworld, ← heffect]
    rfl
  refine ⟨?_, ?_, ?_, ?_, ⟨records, hnotes, hfinal⟩, ?_, ?_⟩
  · rw [heffect]
    exact ShellState.ascend_recorded hd (by decide) hrecorded
  · intro operand' inner' tree' ht'
    rw [Redirection.evaluate_cut hd hrun ht', heffect]
  · rw [hr.process.1, (ShellState.descend_process hd).1, List.length_append]
    omega
  · intro hnone
    rw [heffect, hcheck hnone]
  · intro l bits content herror hdebug happends hfile
    have hhidden : ∀ record ∈ records, env.logger.admits record.severity = false := by
      intro record hrecord
      rw [(hnotes record hrecord).1]
      exact hdebug
    rw [hfinal, World.logged_cons, World.logged_hidden hhidden, World.logged_admitted herror]
    exact Process.say_appends happends hfile
  · intro l haimed hheard
    have hquiet : (tree.evaluate env s).state.world.tree.find? l =
        reporter.world.tree.find? l := by
      rw [hfinal, World.logged_elsewhere]
      exact fun record hrecord hl => hheard (hr.heard hd hnotes hrecord hl)
    rw [hquiet]
    exact hr.elsewhere hd haimed

def Redirection.fromMissing : List Redirection :=
  [.overwrite none (.word ⟨.command, ['a'], ⟨1, 3⟩⟩), .input (.word ⟨.command, ['m'], ⟨1, 7⟩⟩),
    .overwrite none (.word ⟨.command, ['b'], ⟨1, 11⟩⟩)]

/-- If `m` is missing, `exit > a < m > b` fails, and `a` is not made. -/
theorem refused_redirection_ends_chain_missing_input :
    ∃ tree, Redirection.chained (some (.plain Builtin.exit.name [])) Redirection.fromMissing =
        some tree ∧
      Recorded 1 (tree.evaluate Console.environment Console.shell).effect ∧
      (tree.evaluate Console.environment Console.shell).state.world.tree.find? [['a']] = none := by
  have hdescent : (ShellState.descend Console.environment Console.shell
      (Redirection.fromMissing.drop 2)).any (fun state =>
        match Wiring.verify (.file ['m'] .read [0]) state.process state.world with
        | .ok _ => false
        | .error (_, world) =>
          (world.tree.locate [] ['b']).toOption = some [['b']] ∧
          (world.tree.locate [] ['m']).toOption = none ∧
          state.process.channel? world 2 = some (.file Console.errors) ∧
          Console.shell.process.channel? world 2 = some (.file Console.errors)) = true := by
    decide +kernel
  obtain ⟨state, hd, hfacts⟩ := (Option.any_eq_true _ _).mp hdescent
  cases hv : Wiring.verify (.file ['m'] .read [0]) state.process state.world with
  | ok world =>
    rw [hv] at hfacts
    cases hfacts
  | error refused =>
    obtain ⟨failure, world⟩ := refused
    rw [hv] at hfacts
    obtain ⟨hb, hm, hstate, hshell⟩ := of_decide_eq_true hfacts
    have ht : Redirection.chained (some (.plain Builtin.exit.name []))
        (Redirection.fromMissing.take 1 ++ .input (.word ⟨.command, ['m'], ⟨1, 7⟩⟩) ::
          Redirection.fromMissing.drop 2) = some _ := rfl
    obtain ⟨hrecorded, _, _, _, _, _, hfiles⟩ :=
      refused_redirection_ends_chain ht hd (.check rfl hv)
    have hvacant : Console.shell.world.tree.find? [['a']] = none := by decide +kernel
    have hother : ¬ Redirection.Aimed Console.environment Console.shell world.tree [['a']]
        (Redirection.fromMissing.drop 2) := by
      rintro (⟨target, htarget, hlocated⟩ | hnil)
      · cases htarget
        rw [show world.tree.locate [] ['b'] = .ok [['a']] from hlocated] at hb
        cases hb
      · exact hnil
    have hheard : ¬ Redirection.Heard Console.environment Console.shell world [['a']]
        (Redirection.fromMissing.drop 2) := by
      rintro ⟨outer, shell, hsuffix, hs, hchannel⟩
      rcases List.suffix_cons_iff.mp hsuffix with rfl | hnil
      · cases hd.symm.trans hs
        cases hstate.symm.trans hchannel
      · rw [List.suffix_nil.mp hnil] at hs
        cases hs
        cases hshell.symm.trans hchannel
    refine ⟨_, rfl, hrecorded, ?_⟩
    rcases hfiles [['a']] hother hheard with hsame | ⟨⟨target, htarget, hlocated⟩ | ha, _⟩
    · exact hsame.trans hvacant
    · cases htarget
      rw [show world.tree.locate [] ['m'] = .ok [['a']] from hlocated] at hm
      cases hm
    · exact absurd ha hother

def Console.withheld : ShellState :=
  ⟨process 1 [], { world ⟨[]⟩ [] with rights := ⟨false, 0o222, fun _ => .owner, []⟩ }, 0⟩

/-- The check of `> a` fails, but not before it has made `a`; with a logger that
hides everything, no error is reported of `< m`; and where a word stands for a
descriptor, the evaluation fails before anything is checked. -/
theorem refused_check_makes_target :
    (((Statement.bare (.overwrite none (.word ⟨.command, ['a'], ⟨1, 3⟩⟩))).evaluate
        Console.environment Console.withheld).outcome = .value .failure ∧
      Console.withheld.world.tree.find? [['a']] = none ∧
      ((Statement.bare (.overwrite none (.word ⟨.command, ['a'], ⟨1, 3⟩⟩))).evaluate
        Console.environment Console.withheld).state.world.tree.find? [['a']] =
          some (.file 0o444 [])) ∧
    (((Statement.bare (.input (.word ⟨.command, ['m'], ⟨1, 3⟩⟩))).evaluate
        ({ Console.environment with logger := ⟨[], false, none⟩ } : Environment)
          Console.shell).outcome = .value .failure ∧
      Console.written ((Statement.bare (.input (.word ⟨.command, ['m'], ⟨1, 3⟩⟩))).evaluate
        ({ Console.environment with logger := ⟨[], false, none⟩ } : Environment)
          Console.shell).state.world Console.errors = []) ∧
    ((Statement.redirect (.mergeStream (.word ⟨.command, ['x'], ⟨1, 5⟩⟩) (.value 1))
      (.bare (.input (.word ⟨.command, ['m'], ⟨1, 3⟩⟩)))).evaluate Console.environment
        Console.shell).outcome = .failed (.argument (.notDescriptor ['x'])) := by
  decide +kernel

end TinyShell
