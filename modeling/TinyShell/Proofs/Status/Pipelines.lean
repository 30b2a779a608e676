import TinyShell.Proofs.Forks.Containment
import TinyShell.Proofs.Redirection.Chain
import TinyShell.Proofs.Status.Programs

/-!
# Statuses of pipelines and redirections

A pipeline of many parts nests to the right. Its first part runs in a child,
and all others run below a second one, which is a shell with a pipeline of its
own. A status is handed on from child to parent through as many shells: what is
recorded in the end is the status of the first part that has failed. A
redirection hands on the status of what it redirects.
-/

set_option autoImplicit false

namespace TinyShell

def rawStatus (e : Outcome × ShellState) : Nat :=
  match e.1 with
  | .value _ => e.2.status
  | .leave code => code
  | .failed _ => 1
  | .replaced ending => ending.status

def Outcome.isTold : Outcome → Bool
  | replaced ending => ending.isKnown
  | value _ | leave _ | failed _ => true

structure Recorded (n : Nat) (e : Outcome × ShellState) : Prop where
  outcome : e.1 = .value (if n = 0 then .success else .failure)
  status : e.2.status = n

def firstFailure (statuses : List Nat) : Nat := (statuses.find? (· ≠ 0)).getD 0

@[simp] theorem firstFailure_singleton (n : Nat) : firstFailure [n] = n := by
  by_cases h : n = 0
  · simp [firstFailure, h]
  · simp [firstFailure, h]

theorem firstFailure_cons (n : Nat) (rest : List Nat) :
    firstFailure (n :: rest) = ShellState.pipelineStatus n (firstFailure rest) := by
  unfold firstFailure ShellState.pipelineStatus
  by_cases h : n = 0
  · simp [h]
  · simp [h]

namespace Statement

def piped : Statement → List Statement → Statement
  | t, [] => t
  | t, u :: rest => pipeline t (piped u rest)

def Barred : List Statement → List Token → Prop
  | [], ts => ts = []
  | [t], ts => Grammar.Derives .chain ts t
  | t :: rest, ts => ∃ us bar ns vs, ts = us ++ bar :: (ns ++ vs) ∧
      Grammar.Derives .chain us t ∧ bar.kind = .pipe ∧ Grammar.Newlines ns ∧ Barred rest vs

theorem derives_barred {t : Statement} {rest : List Statement} {ts : List Token}
    (h : Barred (t :: rest) ts) : Grammar.Derives .pipeline ts (piped t rest) := by
  induction rest generalizing t ts with
  | nil => exact .single h
  | cons u rest ih =>
    obtain ⟨us, bar, ns, vs, rfl, ht, hb, hn, hrest⟩ := h
    exact .pipe ht hb hn (ih hrest)

end Statement

def Expression.Truthful : Expression → Prop
  | command i | string i => ∀ m, i.memo = some m → m.Written
  | value _ => True

def Statement.Truthful (t : Statement) : Prop := ∀ e ∈ t.atoms, e.Truthful

namespace ShellState

def beside (pipe : Pipe) (connect : Process → Except Failure Process) (s : ShellState) :
    Except (Outcome × ShellState) ShellState :=
  let child := s.onProcess Process.forked
  match connect child.process with
  | .error failure => .error (.failed failure, child.onProcess fun p => (pipe.close p).2)
  | .ok process => .ok { child with process := (pipe.close process).2 }

def writer (s : ShellState) : Except (Outcome × ShellState) ShellState :=
  let opened := s.openPipe
  opened.2.beside opened.1 (opened.1.redirectWriter Wiring.standardOutput)

def reader (env : Environment) (world : World) (s : ShellState) :
    Except (Outcome × ShellState) ShellState :=
  let opened := s.openPipe
  beside opened.1 (opened.1.redirectReader Wiring.standardInput)
    (opened.2.noted env world)

def attempt (body : ShellState → Outcome × ShellState) :
    Except (Outcome × ShellState) ShellState → Outcome × ShellState
  | .error done => done
  | .ok child => body child

/-- What the parts of a pipeline come to, each in its own process. If a process
cannot be connected, the parts it was to run do not come to anything; it has
failed in their place. -/
def stages (env : Environment) : List Statement → ShellState → List (Outcome × ShellState)
  | [], _ => []
  | [t], s => [(t.evaluate env s).effect]
  | t :: u :: rest, s =>
    let wrote := attempt (fun child => (t.evaluate env child).effect) s.writer
    wrote :: match s.reader env (wrote.1.conclude env wrote.2).2 with
      | .error done => [done]
      | .ok child => stages env (u :: rest) child

end ShellState

section

variable {env : Environment} {s : ShellState} {e : Outcome × ShellState} {n : Nat}

theorem Recorded.rawStatus (h : Recorded n e) : rawStatus e = n := by
  rw [TinyShell.rawStatus, h.outcome]
  exact h.status

theorem Recorded.told (h : Recorded n e) : e.1.isTold = true := by
  rw [h.outcome]
  rfl

theorem Settled.rawStatus_le (h : Settled e) : rawStatus e ≤ 255 := by
  obtain ⟨o, s⟩ := e
  cases o with
  | value r => exact h.bounded
  | leave code => exact h
  | failed failure => show 1 ≤ 255; omega
  | replaced ending => exact h

theorem conclude_status (h : rawStatus e ≤ 255) :
    (e.1.conclude env e.2).1.status = rawStatus e := by
  obtain ⟨o, s⟩ := e
  cases o with
  | value r =>
    show s.status % 256 = s.status
    have hs : s.status ≤ 255 := h
    omega
  | leave code =>
    show code % 256 = code
    have hc : code ≤ 255 := h
    omega
  | failed failure => rfl
  | replaced ending => rfl

theorem conclude_known (h : e.1.isTold = true) : (e.1.conclude env e.2).1.isKnown = true := by
  obtain ⟨o, s⟩ := e
  cases o with
  | value | leave | failed => rfl
  | replaced ending => exact h

theorem finish_recorded (n : Nat) (s : ShellState) : Recorded n (s.finish n) := ⟨rfl, rfl⟩

/-- A parent that is told goes on with the status its child had to tell. -/
theorem await_recorded {p : Process} {younger : List Guard}
    {next : Nat → ShellState → Outcome × ShellState} (hp : s.process.pid = p.pid)
    (hle : rawStatus e ≤ 255) (ht : e.1.isTold = true) (hn : Recorded n (next (rawStatus e) s)) :
    Recorded n (s.await env (Guard.ofParent p (e.1.conclude env e.2).1) younger next) := by
  rw [ShellState.await_ofParent env p younger s next hp (conclude_known ht), conclude_status hle]
  constructor
  · exact hn.outcome
  · rw [ShellState.release_status]
    exact hn.status

end

namespace ShellState

variable {env : Environment} {s child : ShellState}
  {left right body : ShellState → Outcome × ShellState}

theorem pipelineSide_beside (pipe : Pipe) (connect : Process → Except Failure Process)
    (body : ShellState → Outcome × ShellState) (s : ShellState) :
    pipelineSide env pipe connect body (s.onProcess Process.forked) =
      (attempt body (s.beside pipe connect)).1.conclude env
        (attempt body (s.beside pipe connect)).2 := by
  simp only [pipelineSide, beside]
  cases connect (s.onProcess Process.forked).process with
  | error failure => rfl
  | ok process => rfl

/-- The first side that has failed decides what a pipeline records. -/
theorem runPipeline_recorded {wrote read : Outcome × ShellState}
    (hw : attempt left s.writer = wrote)
    (hr : attempt right (s.reader env (wrote.1.conclude env wrote.2).2) = read)
    (hwle : rawStatus wrote ≤ 255) (hrle : rawStatus read ≤ 255)
    (hwt : wrote.1.isTold = true) (hrt : read.1.isTold = true) :
    Recorded (pipelineStatus (rawStatus wrote) (rawStatus read))
      (s.runPipeline env left right) := by
  simp only [writer] at hw
  simp only [reader] at hr
  simp only [runPipeline_reliable, forkNoted, fork, pipelineSide_beside, hw, hr]
  have hforked (world : World) : (s.openPipe.2.noted env world).process.pid =
      s.openPipe.2.process.pid := by rw [noted_process]; rfl
  refine await_recorded ?_ hwle hwt (await_recorded ?_ hrle hrt (finish_recorded _ _))
  · rw [(closePipe_alongside _).pid, noted_process]
    exact hforked _
  · rw [(closePipe_alongside _).pid, noted_process]
    rfl

/-- What a redirection records is the status of what was done in its child. -/
theorem concluded_recorded {r : Redirection} {done : Outcome × ShellState}
    (hle : rawStatus done ≤ 255) (ht : done.1.isTold = true) :
    Recorded (rawStatus done) (s.concluded env r done) := by
  simp only [concluded]
  refine await_recorded ?_ hle ht (finish_recorded _ _)
  rw [noted_process]
  rfl

theorem ascend_recorded {rs : List Redirection} {done : Outcome × ShellState} {n : Nat}
    (h : descend env s rs = some child) (hn : n ≤ 255) (hd : Recorded n done) :
    Recorded n (ascend env s rs done) := by
  induction rs generalizing child done with
  | nil => exact hd
  | cons r outer ih =>
    obtain ⟨state, hs, _⟩ := descend_cons h
    simp only [ascend, hs]
    apply ih hs
    have hraw := hd.rawStatus
    have hnext := @concluded_recorded env state (r.expand env state) done (by omega) hd.told
    rw [hraw] at hnext
    exact hnext

end ShellState

namespace Statement

variable {env : Environment} {s : ShellState} {t u : Statement} {rest : List Statement}

/-- Whatever a statement remembers, the programs that replace a process are run
now. -/
theorem evaluate_fits (hf : env.execute.Fits) : (t.evaluate env s).outcome.Fits := by
  intro ending ho
  have ha : (t.evaluate env s).outcome.isAbrupt = true := by rw [ho]; rfl
  obtain ⟨u, s', _, hleaf, hu⟩ := abrupt_reached ha
  rw [ho] at hu
  have hcause := @leaf_comesTo env u s' hleaf
  rw [hu] at hcause
  cases hcause with
  | @replaced e =>
    have he : (e.evaluate env s').outcome = .replaced ending := hu
    obtain ⟨_, _, i, hi, hm, _⟩ := Expression.runs_of_abrupt (by rw [he]; rfl)
    have hs := ShellState.invoke_settled hf (i := i) (by simp [hm]) s'
    rcases hi with rfl | rfl <;> exact hs.fits ending he

/-- No evaluation has a status to tell that an exit code cannot carry. -/
theorem rawStatus_le (hf : env.execute.Fits) (ht : t.Truthful) (hs : s.status ≤ 255) :
    rawStatus (t.evaluate env s).effect ≤ 255 := by
  induction t generalizing s with
  | sequence left right ihl ihr =>
    have hl := ihl (fun e he => ht e (by simp [atoms, he])) hs
    have hright : right.Truthful := fun e he => ht e (by simp [atoms, he])
    simp only [evaluate]
    split
    next ho =>
      simp only [rawStatus, Evaluated.effect, ho] at hl
      exact ihr hright hl
    next => exact hl
  | closed left ih => exact ih ht hs
  | and left right ihl ihr =>
    have hl := ihl (fun e he => ht e (by simp [atoms, he])) hs
    have hright : right.Truthful := fun e he => ht e (by simp [atoms, he])
    simp only [evaluate]
    split
    next ho =>
      simp only [rawStatus, Evaluated.effect, ho] at hl
      split
      next => exact ihr hright hl
      next => exact hl
    next => exact hl
  | or left right ihl ihr =>
    have hl := ihl (fun e he => ht e (by simp [atoms, he])) hs
    have hright : right.Truthful := fun e he => ht e (by simp [atoms, he])
    simp only [evaluate]
    split
    next ho =>
      simp only [rawStatus, Evaluated.effect, ho] at hl
      split
      next => exact hl
      next => exact ihr hright hl
    next => exact hl
  | not inner ih =>
    have hi := ih ht hs
    simp only [evaluate]
    split
    next =>
      apply Settled.rawStatus_le
      apply ShellState.finish_settled
      split <;> decide
    next => exact hi
  | pipeline left right =>
    apply Settled.rawStatus_le
    exact ShellState.runPipeline_settled (fun _ => evaluate_fits hf) (fun _ => evaluate_fits hf) s
  | redirect redirection left =>
    apply Settled.rawStatus_le
    exact ShellState.runRedirected_settled (fun _ => evaluate_fits hf) _ s
  | bare redirection =>
    apply Settled.rawStatus_le
    refine ShellState.runRedirected_settled (fun s => ?_) _ s
    exact (ShellState.finish_settled (by decide) s).fits
  | atom expression =>
    have he := ht expression (by simp [atoms])
    cases expression with
    | command i => exact (ShellState.invoke_settled hf he s).rawStatus_le
    | string i => exact (ShellState.invoke_settled hf he s).rawStatus_le
    | value n => exact hs

theorem piped_truthful (h : ∀ v ∈ t :: rest, v.Truthful) : (piped t rest).Truthful := by
  induction rest generalizing t with
  | nil => exact h t (by simp)
  | cons u rest ih =>
    intro e he
    rcases List.mem_append.mp he with hl | hr
    · exact h t (by simp) e hl
    · exact ih (fun v hv => h v (by simp [hv])) e hr

end Statement

namespace ShellState

variable {env : Environment} {s child : ShellState} {t u : Statement} {rest : List Statement}

theorem beside_status {pipe : Pipe} {connect : Process → Except Failure Process}
    (h : s.beside pipe connect = .ok child) : child.status = s.status := by
  simp only [beside] at h
  split at h
  next => cases h
  next => cases h; rfl

theorem attempt_rawStatus_le {pipe : Pipe} {connect : Process → Except Failure Process}
    {body : ShellState → Outcome × ShellState}
    (hb : ∀ child : ShellState, child.status = s.status → rawStatus (body child) ≤ 255) :
    rawStatus (attempt body (s.beside pipe connect)) ≤ 255 := by
  cases hc : s.beside pipe connect with
  | ok child => exact hb child (beside_status hc)
  | error done =>
    simp only [beside] at hc
    split at hc
    next =>
      cases hc
      show 1 ≤ 255
      omega
    next => cases hc

/-- A pipeline records the first failure of its parts, if the process of its
right side tells the first failure of the others. -/
theorem pipeline_recorded (hf : env.execute.Fits) (ht : ∀ v ∈ t :: u :: rest, v.Truthful)
    (hs : s.status ≤ 255) (htold : ∀ e ∈ stages env (t :: u :: rest) s, e.1.isTold = true)
    (hright : ∀ child : ShellState, child.status ≤ 255 →
      (∀ e ∈ stages env (u :: rest) child, e.1.isTold = true) →
      rawStatus ((Statement.piped u rest).evaluate env child).effect =
          firstFailure ((stages env (u :: rest) child).map rawStatus) ∧
        ((Statement.piped u rest).evaluate env child).outcome.isTold = true) :
    Recorded (firstFailure ((stages env (t :: u :: rest) s).map rawStatus))
      ((Statement.piped t (u :: rest)).evaluate env s).effect := by
  simp only [stages, List.map_cons, firstFailure_cons, List.mem_cons] at htold ⊢
  generalize hwrote : attempt (fun child => (t.evaluate env child).effect) s.writer = wrote
    at htold ⊢
  have hwle : rawStatus wrote ≤ 255 := by
    rw [← hwrote]
    apply attempt_rawStatus_le
    intro child hc
    exact Statement.rawStatus_le hf (ht t (by simp)) (by rw [hc]; exact hs)
  have hpiped : (Statement.piped u rest).Truthful :=
    Statement.piped_truthful fun v hv => ht v (by simp_all)
  have hrle : rawStatus (attempt
      (fun child => ((Statement.piped u rest).evaluate env child).effect)
      (s.reader env (wrote.1.conclude env wrote.2).2)) ≤ 255 := by
    apply attempt_rawStatus_le
    intro child hc
    exact Statement.rawStatus_le hf hpiped (by rw [hc, noted_status]; exact hs)
  cases hreader : s.reader env (wrote.1.conclude env wrote.2).2 with
  | error done =>
    simp only [hreader] at htold hrle ⊢
    rw [List.map_singleton, firstFailure_singleton]
    apply runPipeline_recorded hwrote (by rw [hreader]) hwle hrle
    · exact htold wrote (.inl rfl)
    · exact htold done (.inr (by simp))
  | ok child =>
    simp only [hreader] at htold hrle ⊢
    have hchild : child.status ≤ 255 := by
      rw [beside_status hreader, noted_status]
      exact hs
    obtain ⟨hraw, htells⟩ := hright child hchild fun e he => htold e (.inr he)
    rw [← hraw]
    apply runPipeline_recorded hwrote (by rw [hreader]) hwle hrle
    · exact htold wrote (.inl rfl)
    · exact htells

theorem piped_recorded (hf : env.execute.Fits) (ht : ∀ v ∈ t :: u :: rest, v.Truthful)
    (hs : s.status ≤ 255) (htold : ∀ e ∈ stages env (t :: u :: rest) s, e.1.isTold = true) :
    Recorded (firstFailure ((stages env (t :: u :: rest) s).map rawStatus))
      ((Statement.piped t (u :: rest)).evaluate env s).effect := by
  induction rest generalizing t u s with
  | nil =>
    apply pipeline_recorded hf ht hs htold
    intro child _ hu
    constructor
    · rw [stages, List.map_singleton, firstFailure_singleton]
      rfl
    · exact hu (u.evaluate env child).effect (by simp [stages])
  | cons v rest ih =>
    apply pipeline_recorded hf ht hs htold
    intro child hc hu
    have hrecorded := ih (fun w hw => ht w (by simp_all)) hc hu
    exact ⟨hrecorded.rawStatus, hrecorded.told⟩

end ShellState

namespace Descriptors

def HasRoom (d : Descriptors) : Prop :=
  ∃ a b, 2 ≤ a ∧ a < b ∧ b < limit ∧ d.find? a = none ∧ d.find? b = none

theorem lowestFree_le {d : Descriptors} {fd : Nat} (h : d.find? fd = none) :
    d.lowestFree ≤ fd := by
  apply Nat.le_of_not_lt
  intro (hlt : fd < d.slots.findIdx Option.isNone)
  have hlength : d.slots.findIdx Option.isNone ≤ d.slots.length := List.findIdx_le_length
  have hused := List.not_of_lt_findIdx hlt
  rw [find?, List.getElem?_eq_getElem (by omega)] at h
  simp_all

theorem copy_ok {d : Descriptors} {source target : Nat} {slot : Slot}
    (hs : source < limit) (ht : target < limit) (hf : d.find? source = some slot) :
    ∃ d', d.copy source target = .ok d' := by
  have hvalid {fd : Nat} (h : fd < limit) : valid (fd : Int) = true := by
    simp [valid, h]
  simp only [copy, hvalid hs, hvalid ht, Int.toNat_natCast, hf]
  split
  next h => cases h
  next => split <;> exact ⟨_, rfl⟩

end Descriptors

namespace Pipe

/-- The ends of a new pipe are descriptors, if there is room for them. -/
theorem create_room {p : Process} {w : World} (h : p.descriptors.HasRoom) :
    ∃ reader writer, (create p w).1 = ⟨some reader, some writer⟩ ∧
      reader < Descriptors.limit ∧ writer < Descriptors.limit := by
  obtain ⟨a, b, _, hab, hb, hfa, hfb⟩ := h
  have hreader := Descriptors.lowestFree_le hfa
  generalize hd : p.descriptors.set p.descriptors.lowestFree
    (some ⟨w.openings.length, true⟩) = d
  have hwriter : d.lowestFree ≤ b := by
    apply Descriptors.lowestFree_le
    rw [← hd, Descriptors.find?_set, if_neg (by omega)]
    exact hfb
  exact ⟨p.descriptors.lowestFree, d.lowestFree, by subst hd; rfl, by omega, by omega⟩

theorem find?_close (reader writer n : Nat) (p : Process) :
    ((close ⟨some reader, some writer⟩ p).2).descriptors.find? n =
      if n = writer ∨ n = reader then none else p.descriptors.find? n := by
  have hclosed : (close ⟨some reader, some writer⟩ p).2.descriptors =
      (p.descriptors.set reader none).set writer none := rfl
  rw [hclosed, Descriptors.find?_set, Descriptors.find?_set]
  by_cases hw : n = writer
  · simp [hw]
  · simp [hw]

end Pipe

namespace ShellState

structure Below (s child : ShellState) : Prop where
  pid : s.process.pid < child.process.pid
  directory : child.process.directory = s.process.directory
  status : child.status = s.status

theorem Below.trans {s s' s'' : ShellState} (h : s.Below s') (h' : s'.Below s'') :
    s.Below s'' where
  pid := Nat.lt_trans h.pid h'.pid
  directory := h'.directory.trans h.directory
  status := h'.status.trans h.status

variable {env : Environment} {s s' child : ShellState} {fd target : Nat}

/-- With room for a pipe, a child can be connected to it, and has room itself. -/
theorem beside_room (h : s.process.descriptors.HasRoom)
    (hd : s'.process.descriptors = s.openPipe.2.process.descriptors)
    (hfd : s.openPipe.1.reader = some fd ∨ s.openPipe.1.writer = some fd) (ht : target < 2) :
    ∃ child, s'.beside s.openPipe.1 (Pipe.redirectEnd (some fd) target) = .ok child ∧
      child.process.descriptors.HasRoom ∧ s'.Below child := by
  obtain ⟨reader, writer, hpipe, hrl, hwl⟩ := @Pipe.create_room _ s.world h
  obtain ⟨a, b, ha, hab, hb, hfa, hfb⟩ := h
  have hmade : s.openPipe.1 = ⟨some reader, some writer⟩ := hpipe
  have hfind (n : Nat) : s'.process.descriptors.find? n =
      if writer = n then some ⟨s.world.openings.length + 1, true⟩
      else if reader = n then some ⟨s.world.openings.length, true⟩
      else s.process.descriptors.find? n := by
    rw [hd]
    have hmake := Pipe.create_find? s.process s.world n
    simp only [hpipe, Option.some.injEq] at hmake
    exact hmake
  rw [hmade] at hfd ⊢
  have hconnect : ∃ process, s'.process.forked.copy fd target = .ok process := by
    obtain ⟨slot, hslot⟩ : ∃ slot, s'.process.forked.descriptors.find? fd = some slot := by
      show ∃ slot, s'.process.descriptors.find? fd = some slot
      rw [hfind fd]
      rcases hfd with hfd | hfd
      · cases hfd
        split
        next => exact ⟨_, rfl⟩
        next => exact ⟨_, if_pos rfl⟩
      · cases hfd
        exact ⟨_, if_pos rfl⟩
    have hlimit : fd < Descriptors.limit := by
      rcases hfd with hfd | hfd <;> cases hfd <;> assumption
    obtain ⟨d, hcopy⟩ := Descriptors.copy_ok hlimit (show target < Descriptors.limit by omega) hslot
    exact ⟨{ s'.process.forked with descriptors := d }, by simp only [Process.copy, hcopy]⟩
  obtain ⟨process, hcopy⟩ := hconnect
  obtain ⟨halong, hcopied⟩ := Process.copy_find? hcopy
  have hfree {n : Nat} (hn : 2 ≤ n) (hnone : s.process.descriptors.find? n = none) :
      ((Pipe.close ⟨some reader, some writer⟩ process).2).descriptors.find? n = none := by
    rw [Pipe.find?_close]
    by_cases he : n = writer ∨ n = reader
    · rw [if_pos he]
    · rw [if_neg he, hcopied, if_neg (by omega)]
      show s'.process.descriptors.find? n = none
      rw [hfind n, if_neg fun hw => he (.inl hw.symm), if_neg fun hr => he (.inr hr.symm)]
      exact hnone
  have hclose := Pipe.close_alongside ⟨some reader, some writer⟩ process
  refine ⟨{ s' with process := (Pipe.close ⟨some reader, some writer⟩ process).2 }, ?_, ?_, ?_⟩
  · simp only [beside, onProcess, Pipe.redirectEnd, hcopy]
  · exact ⟨a, b, ha, hab, hb, hfree ha hfa, hfree (by omega) hfb⟩
  · constructor
    · rw [hclose.pid, halong.pid]
      exact Nat.lt_succ_self _
    · rw [hclose.directory, halong.directory]
      rfl
    · rfl

theorem stages_connected {t u : Statement} {rest : List Statement}
    (h : s.process.descriptors.HasRoom) :
    ∃ wrote read : ShellState, s.Below wrote ∧ s.Below read ∧ read.process.descriptors.HasRoom ∧
      stages env (t :: u :: rest) s =
        (t.evaluate env wrote).effect :: stages env (u :: rest) read := by
  obtain ⟨wrote, hwriter, _, hwrote⟩ :=
    @beside_room s s.openPipe.2 _ 1 h rfl (.inr rfl) (by decide)
  have hwriter : s.writer = .ok wrote := hwriter
  generalize hworld : ((t.evaluate env wrote).outcome.conclude env
    (t.evaluate env wrote).state).2 = world
  have hparent := @noted_process env s.openPipe.2 world
  have hstatus := s.openPipe.2.noted_status env world
  obtain ⟨read, hreader, hroom, hread⟩ := @beside_room s (s.openPipe.2.noted env world) _ 0 h
    (by rw [hparent]; rfl) (.inl rfl) (by decide)
  have hreader : s.reader env world = .ok read := hreader
  refine ⟨wrote, read, ⟨hwrote.pid, hwrote.directory, hwrote.status⟩, ⟨?_, ?_, ?_⟩, hroom, ?_⟩
  · have hpid := hread.pid
    rw [hparent] at hpid
    exact hpid
  · have hdirectory := hread.directory
    rw [hparent] at hdirectory
    exact hdirectory
  · exact hread.status.trans hstatus
  simp only [stages, hwriter, attempt, Evaluated.effect, hworld, hreader]

/-- With room for pipes, each part of a pipeline is evaluated by a process
below the shell. -/
theorem stages_below {t u : Statement} {rest : List Statement}
    (h : s.process.descriptors.HasRoom) :
    ∃ children : List ShellState, children.length = (t :: u :: rest).length ∧
      (∀ child ∈ children, s.Below child) ∧
      stages env (t :: u :: rest) s =
        List.zipWith (fun v child => (v.evaluate env child).effect) (t :: u :: rest)
          children := by
  induction rest generalizing t u s with
  | nil =>
    obtain ⟨wrote, read, hwrote, hread, _, hstages⟩ := @stages_connected env s t u [] h
    refine ⟨[wrote, read], rfl, ?_, hstages⟩
    intro child hc
    rcases List.mem_cons.mp hc with rfl | hc
    · exact hwrote
    · rw [List.mem_singleton.mp hc]
      exact hread
  | cons v rest ih =>
    obtain ⟨wrote, read, hwrote, hread, hroom, hstages⟩ :=
      @stages_connected env s t u (v :: rest) h
    obtain ⟨children, hlength, hbelow, hrest⟩ := @ih read u v hroom
    refine ⟨wrote :: children, by simp [hlength], ?_, ?_⟩
    · intro child hc
      rcases List.mem_cons.mp hc with rfl | hc
      · exact hwrote
      · exact hread.trans (hbelow child hc)
    · rw [hstages, hrest]
      rfl

theorem descend_status {rs : List Redirection} (h : descend env s rs = some child) :
    child.status = s.status := by
  induction rs generalizing child with
  | nil =>
    cases h
    rfl
  | cons r outer ih =>
    obtain ⟨state, hs, he⟩ := descend_cons h
    obtain ⟨_, _, _, _, _, hstatus⟩ := entered_steps he
    exact hstatus.trans (ih hs)

theorem chained_recorded {operand : Option Statement} {r : Redirection} {rs : List Redirection}
    {tree : Statement} (hf : env.execute.Fits) (hs : s.status ≤ 255)
    (ht : Redirection.chained operand (r :: rs) = some tree)
    (hd : descend env s (r :: rs) = some child) (ho : ∀ t ∈ operand, t.Truthful)
    (htold : (evaluateOperand env operand child).1.isTold = true) :
    Recorded (rawStatus (evaluateOperand env operand child)) (tree.evaluate env s).effect := by
  have hle : rawStatus (evaluateOperand env operand child) ≤ 255 := by
    cases operand with
    | none => exact Nat.zero_le 255
    | some t =>
      have hchild := descend_status hd
      exact Statement.rawStatus_le hf (ho t rfl) (by omega)
  have heval := evaluate_chained operand hd
  rw [ht] at heval
  obtain ⟨state, hstate, _⟩ := descend_cons hd
  -- The innermost redirection records the status, and the others hand it on.
  have hinner := @concluded_recorded env state (r.expand env state) _ hle htold
  have houter := ascend_recorded hstate hle hinner
  simp only [ascend, hstate] at heval
  rw [← heval] at houter
  exact houter

end ShellState

/-- A pipeline of any length records the status of the first of its parts that
has failed, where a part tells the status it has left, the code it leaves with,
one if it fails, and that of the program that has replaced it. A chain of
redirections that can all be done records in the same way the status of its
operand, and zero if there is none. -/
theorem first_failure_recorded {env : Environment} {s : ShellState} (hf : env.execute.Fits)
    (hs : s.status ≤ 255) :
    (∀ (t u : Statement) (rest : List Statement), (∀ v ∈ t :: u :: rest, v.Truthful) →
      (∀ e ∈ ShellState.stages env (t :: u :: rest) s, e.1.isTold = true) →
      Recorded (firstFailure ((ShellState.stages env (t :: u :: rest) s).map rawStatus))
        ((Statement.piped t (u :: rest)).evaluate env s).effect) ∧
    (s.process.descriptors.HasRoom → ∀ (t u : Statement) (rest : List Statement),
      ∃ children : List ShellState, children.length = (t :: u :: rest).length ∧
        (∀ child ∈ children, s.Below child) ∧
        ShellState.stages env (t :: u :: rest) s =
          List.zipWith (fun v child => (v.evaluate env child).effect) (t :: u :: rest)
            children) ∧
    (∀ (t : Statement) (rest : List Statement) (ts : List Token),
      Statement.Barred (t :: rest) ts → Grammar.Derives .pipeline ts (Statement.piped t rest)) ∧
    (∀ (operand : Option Statement) (r : Redirection) (rs : List Redirection) (tree : Statement)
      (child : ShellState), Redirection.chained operand (r :: rs) = some tree →
      ShellState.descend env s (r :: rs) = some child → (∀ t ∈ operand, t.Truthful) →
      (ShellState.evaluateOperand env operand child).1.isTold = true →
      Recorded (rawStatus (ShellState.evaluateOperand env operand child))
        (tree.evaluate env s).effect ∧
      (operand = none → rawStatus (ShellState.evaluateOperand env operand child) = 0)) := by
  refine ⟨?_, ?_, ?_, ?_⟩
  · intro t u rest ht htold
    exact ShellState.piped_recorded hf ht hs htold
  · intro hroom t u rest
    exact ShellState.stages_below hroom
  · intro t rest ts hts
    exact Statement.derives_barred hts
  · intro operand r rs tree child ht hd ho htold
    refine ⟨ShellState.chained_recorded hf hs ht hd ho htold, ?_⟩
    rintro rfl
    rfl

def Statement.plain (head : Text) (arguments : List Text) : Statement :=
  .atom (.command ⟨⟨.command, head, ⟨1, 1⟩⟩, arguments.map fun text => ⟨.command, text, ⟨1, 1⟩⟩,
    none⟩)

theorem Statement.plain_truthful (head : Text) (arguments : List Text) :
    (plain head arguments).Truthful := by
  intro e he
  rw [List.mem_singleton.mp he]
  intro m hm
  cases hm

def Console.environment : Environment := ⟨none, some "/bin", Image.run, false, ⟨[], false, none⟩⟩

def Console.shell : ShellState := ⟨process 1 [], world World.standardTree [], 7⟩

/-- In `exit | cd a b | exec false` the second part fails first, and in
`exit > a > b` nothing does. -/
theorem first_failure_recorded_in_the_middle :
    Recorded 1 ((Statement.piped (.plain Builtin.exit.name [])
      [.plain Builtin.cd.name [['a'], ['b']], .plain Builtin.exec.name ["false"]]).evaluate
        Console.environment Console.shell).effect ∧
    Recorded 0 ((Statement.redirect (.overwrite none (.word ⟨.command, ['b'], ⟨1, 12⟩⟩))
      (.redirect (.overwrite none (.word ⟨.command, ['a'], ⟨1, 8⟩⟩))
        (.plain Builtin.exit.name []))).evaluate Console.environment Console.shell).effect := by
  obtain ⟨hpipeline, _, _, hchain⟩ :=
    @first_failure_recorded Console.environment Console.shell Image.run_fits (by decide)
  constructor
  · have hstatus : firstFailure ((ShellState.stages Console.environment
        [.plain Builtin.exit.name [], .plain Builtin.cd.name [['a'], ['b']],
          .plain Builtin.exec.name ["false"]] Console.shell).map rawStatus) = 1 := by
      decide +kernel
    rw [← hstatus]
    apply hpipeline
    · simp [Statement.plain_truthful]
    · decide +kernel
  · have hsome : (ShellState.descend Console.environment Console.shell
        [.overwrite none (.word ⟨.command, ['a'], ⟨1, 8⟩⟩),
          .overwrite none (.word ⟨.command, ['b'], ⟨1, 12⟩⟩)]).isSome = true := by
      decide +kernel
    obtain ⟨child, hchild⟩ := Option.isSome_iff_exists.mp hsome
    have hleave : (ShellState.evaluateOperand Console.environment
        (some (.plain Builtin.exit.name [])) child).1 = .leave 0 := rfl
    have hstatus : rawStatus (ShellState.evaluateOperand Console.environment
        (some (.plain Builtin.exit.name [])) child) = 0 := by
      rw [rawStatus, hleave]
    rw [← hstatus]
    apply (hchain _ _ _ _ child rfl hchild _ _).1
    · simp [Statement.plain_truthful]
    · rw [hleave]
      rfl

end TinyShell
