import TinyShell.Proofs.Redirection.Table
import TinyShell.Shell.Evaluation

/-!
# The parent of a fork

Whatever a forked shell does, its parent stays in its directory and goes on to
a value. All that can go wrong for the parent is that it waits in vain for a
child whose status is not known.
-/

set_option autoImplicit false

namespace TinyShell

def Environment.Untold (env : Environment) : Prop :=
  ∃ image call p w, (env.execute image call p w).1.isKnown = false

def Untold (body : ShellState → Outcome × ShellState) : Prop :=
  ∃ s ending, (body s).1 = .replaced ending ∧ ending.isKnown = false

theorem Environment.untold_of_replace {env : Environment} {p : Process} {w : World} {name : Text}
    {arguments : List Text} {done : Ending × World}
    (hd : Execution.replace? env.execute env.search p w name arguments = some done)
    (hk : done.1.isKnown = false) : env.Untold := by
  unfold Execution.replace? at hd
  split at hd
  next => cases hd
  next =>
    rw [← Option.some.inj hd] at hk
    exact ⟨_, _, _, _, hk⟩

namespace Outcome

def Kept (lost : Prop) (o : Outcome) : Prop :=
  (∃ r, o = .value r) ∨ o = .failed (Guard.waitFailure .invalidArgument) ∧ lost

variable {lost : Prop} {o : Outcome}

theorem Kept.ne_leave (h : o.Kept lost) (code : Nat) : o ≠ .leave code := by
  rcases h with ⟨r, rfl⟩ | ⟨rfl, _⟩ <;> simp

end Outcome

namespace Process.Alongside

theorem refl (p : Process) : p.Alongside p := ⟨rfl, rfl⟩

end Process.Alongside

namespace Guard

theorem release_alongside (g : Guard) (p : Process) : p.Alongside (g.release p).2 := by
  unfold release
  split
  next => split <;> exact ⟨rfl, rfl⟩
  next => exact .refl p

/-- The process that has forked a child is told its status, if it is known. -/
theorem wait_ofParent_cases (p : Process) (ending : Ending) :
    (∃ n, ((ofParent p ending).wait p.pid).1 = .ok n) ∨
      ((ofParent p ending).wait p.pid).1 = .error (waitFailure .invalidArgument) ∧
        ending.isKnown = false := by
  cases hk : ending.isKnown with
  | true => exact .inl ⟨ending.status, by rw [wait_ofParent p hk]⟩
  | false => exact .inr ⟨by simp [wait, ofParent, reap, hk], rfl⟩

end Guard

namespace Pipe

theorem closeEnd_alongside (fd : Option Nat) (p : Process) : p.Alongside (closeEnd fd p) := by
  cases fd <;> exact ⟨rfl, rfl⟩

theorem close_alongside (pipe : Pipe) (p : Process) : p.Alongside (pipe.close p).2 :=
  (closeEnd_alongside pipe.reader p).trans (closeEnd_alongside pipe.writer _)

/-- The ends of a new pipe, and the other descriptors as they were. -/
theorem create_find? (p : Process) (w : World) (n : Nat) :
    (create p w).2.1.descriptors.find? n =
      if (create p w).1.writer = some n then some ⟨w.openings.length + 1, true⟩
      else if (create p w).1.reader = some n then some ⟨w.openings.length, true⟩
      else p.descriptors.find? n := by
  simp only [create, World.opened, Descriptors.find?_set, Option.some.injEq, eq_comm,
    List.length_append, List.length_cons, List.length_nil]

theorem create_free {p : Process} {w : World} {n : Nat}
    (h : (create p w).1.reader = some n ∨ (create p w).1.writer = some n) :
    p.descriptors.find? n = none := by
  rcases h with h | h
  · cases h
    exact Descriptors.find?_lowestFree _
  · cases h
    generalize hd : p.descriptors.set p.descriptors.lowestFree
      (some ⟨w.openings.length, true⟩) = d
    have hfree := d.find?_lowestFree
    rw [← hd, Descriptors.find?_set] at hfree
    split at hfree
    next => cases hfree
    next =>
      rw [hd] at hfree
      exact hfree

end Pipe

namespace ShellState

variable {env : Environment} {s : ShellState}

@[simp] theorem log_process (severity : Severity) (message : Text) :
    (s.log env severity message).process = s.process := by
  unfold log
  split <;> rfl

@[simp] theorem finish_process (status : Nat) : (s.finish status).2.process = s.process := rfl

@[simp] theorem reportProgram_process {notice : Pipe} {command : Text} {status : Nat} :
    (s.reportProgram env notice command status).2.process = s.process := by
  simp only [reportProgram, finish_process, log_process]
  split
  next => exact log_process _ _
  next => rfl

theorem openPipe_alongside : s.process.Alongside s.openPipe.2.process := ⟨rfl, rfl⟩

@[simp] theorem noted_process (world : World) :
    (s.noted env world).process = s.process.forking := log_process _ _

@[simp] theorem forkNoted_process (work : ShellState → Ending × World) :
    (s.forkNoted env work).2.process = s.process.forking := log_process _ _

theorem forkNoted_alongside (work : ShellState → Ending × World) :
    s.process.Alongside (s.forkNoted env work).2.process := by
  rw [forkNoted_process]
  exact ⟨rfl, rfl⟩

theorem release_alongside (g : Guard) : s.process.Alongside (s.release env g).process := by
  simp only [release]
  exact g.release_alongside s.process

theorem foldl_release_alongside (gs : List Guard) :
    s.process.Alongside (gs.foldl (fun s g => s.release env g) s).process := by
  induction gs generalizing s with
  | nil => exact .refl _
  | cons g gs ih => exact (release_alongside g).trans ih

theorem await_alongside {g : Guard} {younger : List Guard}
    {next : Nat → ShellState → Outcome × ShellState}
    (hn : ∀ n, s.process.Alongside (next n s).2.process) :
    s.process.Alongside (s.await env g younger next).2.process := by
  simp only [await]
  split
  next => exact (foldl_release_alongside younger).trans (release_alongside _)
  next n _ => exact (hn n).trans (release_alongside _)

theorem await_kept {lost : Prop} {p : Process} {ending : Ending} {younger : List Guard}
    {next : Nat → ShellState → Outcome × ShellState} (hp : s.process.pid = p.pid)
    (he : ending.isKnown = false → lost) (hn : ∀ n, (next n s).1.Kept lost) :
    (s.await env (Guard.ofParent p ending) younger next).1.Kept lost := by
  simp only [await, hp]
  rcases Guard.wait_ofParent_cases p ending with ⟨n, hw⟩ | ⟨hw, hk⟩
  · rw [hw]
    exact hn n
  · rw [hw]
    exact .inr ⟨rfl, he hk⟩

theorem finish_kept {lost : Prop} (status : Nat) : (s.finish status).1.Kept lost := .inl ⟨_, rfl⟩

section

variable {left right body : ShellState → Outcome × ShellState}

theorem closePipe_alongside (pipe : Pipe) : s.process.Alongside (s.closePipe pipe).process :=
  pipe.close_alongside _

theorem piped_alongside (pipe : Pipe) (work : ShellState → Ending × World) :
    s.process.Alongside ((s.forkNoted env work).2.closePipe pipe).process :=
  (forkNoted_alongside work).trans (closePipe_alongside pipe)

theorem finishChild_untold {prepared : Except Failure Process}
    (h : (finishChild env prepared body s).1.isKnown = false) : Untold body := by
  cases prepared with
  | error failure => cases h
  | ok process =>
    simp only [finishChild] at h
    cases ho : (body { s with process := process }).1 with
    | value | leave | failed =>
      rw [ho] at h
      cases h
    | replaced ending =>
      rw [ho] at h
      exact ⟨_, ending, ho, h⟩

theorem runPipeline_kept :
    (s.runPipeline env left right).1.Kept (Untold left ∨ Untold right) := by
  rw [runPipeline_reliable]
  apply await_kept ((forkNoted_alongside _).trans (piped_alongside _ _)).pid
  · exact fun h => .inl (finishChild_untold h)
  · intro n
    -- The second guard belongs to the parent as it was after the first fork.
    apply await_kept (piped_alongside _ _).pid
    · exact fun h => .inr (finishChild_untold h)
    · exact fun m => finish_kept _

theorem runRedirected_kept {r : Redirection} :
    (∃ complaint, Wiring.ofRedirection r = .error complaint ∧
      (s.runRedirected env r body).1 = .failed (.argument complaint)) ∨
    (s.runRedirected env r body).1.Kept (Untold body) := by
  cases hw : Wiring.ofRedirection r with
  | error complaint => exact .inl ⟨complaint, rfl, by simp only [runRedirected, hw]⟩
  | ok wiring =>
    refine .inr ?_
    simp only [runRedirected_reliable, hw]
    cases wiring.verify s.process s.world with
    | error failure => exact finish_kept 1
    | ok world =>
      exact await_kept (forkNoted_alongside _).pid finishChild_untold fun n => finish_kept n

theorem runRedirected_ne_leave {r : Redirection} (code : Nat) :
    (s.runRedirected env r body).1 ≠ .leave code := by
  rcases @runRedirected_kept env s body r with ⟨complaint, _, ho⟩ | hk
  · simp [ho]
  · exact hk.ne_leave code

end

theorem becomeProgram_untold {notice : Pipe} {command : Text} {arguments : List Text}
    (h : (becomeProgram env notice command arguments s).1.isKnown = false) : env.Untold := by
  simp only [becomeProgram] at h
  split at h
  next hd => exact Environment.untold_of_replace hd h
  next => cases h

/-- A program comes to a value, unless its words cannot be handed to it. -/
theorem runProgram_kept {command : Text} {arguments : List Text} :
    (s.runProgram env command arguments).1 = .failed (.argument (.nulByte command)) ∨
      (s.runProgram env command arguments).1.Kept env.Untold := by
  rw [runProgram_reliable]
  split
  next => exact .inl rfl
  next =>
    refine .inr (await_kept ?_ becomeProgram_untold fun n => finish_kept n)
    exact ((forkNoted_alongside _).trans (Pipe.closeEnd_alongside _ _)).pid

end ShellState

end TinyShell
