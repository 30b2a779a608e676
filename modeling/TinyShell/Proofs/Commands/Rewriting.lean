import TinyShell.Proofs.Commands.Recall
import TinyShell.Proofs.Status.Session

/-!
# What an evaluation rewrites

An evaluation gives back the tree it was given. Where it came by in the same
process, the words of a command and the target of a redirection have been
expanded, and a command that came to a value remembers it. Nothing else has
changed: not what was passed over, nor what came after the evaluation was cut
short, nor what was left to a child.
-/

set_option autoImplicit false

namespace TinyShell

inductive Side
  | left
  | right
deriving DecidableEq, Repr

namespace Statement

def part? : Statement → Side → Option Statement
  | sequence left _, .left | and left _, .left | or left _, .left | pipeline left _, .left
  | closed left, .left | not left, .left | redirect _ left, .left => some left
  | sequence _ right, .right | and _ right, .right | or _ right, .right
  | pipeline _ right, .right => some right
  | closed _, .right | not _, .right | redirect _ _, .right | bare _, _ | atom _, _ => none

def at? : List Side → Statement → Option Statement
  | [], t => some t
  | side :: way, t => (t.part? side).bind (at? way)

/-- An evaluation comes, in the same process, to what stands at the end of the
way, and evaluates it in the second state. -/
inductive Visits (env : Environment) : Statement → ShellState → List Side → ShellState → Prop
  | here (t : Statement) (s : ShellState) : Visits env t s [] s
  | first {t left : Statement} {s s' : ShellState} {way : List Side}
      (hf : t.first? = some left) (h : Visits env left s way s') :
      Visits env t s (.left :: way) s'
  | next {t left right : Statement} {s s' : ShellState} {r : Result} {way : List Side}
      (hf : t.first? = some left) (hl : (left.evaluate env s).outcome = .value r)
      (hn : t.next? r = some right) (h : Visits env right (left.evaluate env s).state way s') :
      Visits env t s (.right :: way) s'

end Statement

namespace Invocation

def outline (i : Invocation) : Invocation := { i.mapWords (fun _ => []) with memo := none }

end Invocation

namespace Expression

def outline : Expression → Expression
  | command i => command i.outline
  | string i => string i.outline
  | value n => value n

end Expression

namespace Statement

/-- All of a statement but the texts of words and what commands remember. The
operands of redirections are kept as they are. -/
def outline : Statement → Statement
  | sequence left right => sequence left.outline right.outline
  | closed left => closed left.outline
  | and left right => and left.outline right.outline
  | or left right => or left.outline right.outline
  | not inner => not inner.outline
  | pipeline left right => pipeline left.outline right.outline
  | redirect r left => redirect (r.mapTarget Expression.outline) left.outline
  | bare r => bare (r.mapTarget Expression.outline)
  | atom e => atom e.outline

end Statement

theorem Invocation.outline_mapWords (f : Text → Text) (i : Invocation) :
    (i.mapWords f).outline = i.outline := by
  simp [outline, mapWords]

theorem Expression.outline_mapWords (f : Text → Text) (e : Expression) :
    (e.mapWords f).outline = e.outline := by
  cases e with
  | command i => exact congrArg command (i.outline_mapWords f)
  | string i => exact congrArg string (i.outline_mapWords f)
  | value n => rfl

theorem Redirection.outline_expand (env : Environment) (s : ShellState) (r : Redirection) :
    (r.expand env s).mapTarget Expression.outline = r.mapTarget Expression.outline := by
  cases r <;> simp [expand, mapTarget, Expression.outline_mapWords]

namespace ShellState

variable {env : Environment} {s : ShellState} {i : Invocation}

/-- A command that remembers nothing is expanded. It then remembers exactly
what it has come to. -/
theorem invoke_form (hm : i.memo = none) :
    (s.invoke env i).form.words =
        (i.mapWords (Expansion.expand env.home s.process.pid)).words ∧
      ∀ m, (s.invoke env i).form.memo = some m ↔
        (s.invoke env i).outcome = .value m.result ∧ (s.invoke env i).state.status = m.status := by
  simp only [invoke, hm]
  split
  next r hr =>
    refine ⟨rfl, fun m => ?_⟩
    simp only [Option.some.injEq, Outcome.value.injEq]
    constructor
    · rintro rfl
      exact ⟨rfl, rfl⟩
    · rintro ⟨hresult, hstatus⟩
      rw [hresult, hstatus]
  next o ho =>
    refine ⟨rfl, fun m => ?_⟩
    simp only [Invocation.mapWords, hm, reduceCtorEq, false_iff, not_and]
    intro hv
    exact absurd hv (ho m.result)

theorem invoke_outline : (s.invoke env i).form.outline = i.outline := by
  have hwords := i.outline_mapWords (Expansion.expand env.home s.process.pid)
  simp only [invoke]
  split
  next => rfl
  next =>
    split
    next => exact hwords
    next => exact hwords

end ShellState

theorem Process.enter_ok {p p' : Process} {w : World} {path : Text}
    (h : p.enter w path = .ok p') : ∃ l, p' = { p with directory := l } := by
  unfold enter at h
  split at h
  next => cases h
  next l _ =>
    split at h <;> cases h
    exact ⟨l, rfl⟩

theorem Builtin.run_pid (b : Builtin) (env : Environment) (arguments : List Text) (sink : Sink)
    (s : ShellState) : (b.run env arguments sink s).2.2.process.pid = s.process.pid := by
  cases b with
  | cd =>
    have hentered {path : Text} {p : Process} (h : s.process.enter s.world path = .ok p) :
        p.pid = s.process.pid := by
      obtain ⟨_, rfl⟩ := Process.enter_ok h
      rfl
    simp only [run, runCd]
    repeat' split
    all_goals first | rfl | exact hentered ‹_›
  | exit =>
    simp only [run, runExit]
    split <;> rfl
  | help =>
    simp only [run, runHelp]
    repeat' split
    all_goals rfl
  | type =>
    simp only [run, runType]
    split <;> rfl
  | exec =>
    simp only [run, runExec]
    repeat' split
    all_goals rfl

namespace ShellState

variable {host : Host} {s : ShellState}

theorem runCommand_pid {command : Text} {arguments : List Text} :
    (s.runCommand host command arguments).2.process.pid = s.process.pid := by
  have settled (o : Outcome) (s : ShellState) :
      (s.settle host.toEnvironment o).2.process.pid = s.process.pid := by
    unfold settle
    split
    next => simp only [finish_process, log_process]
    next => rfl
  simp only [runCommand, settled]
  split
  next b _ =>
    simp only [runBuiltin]
    split
    all_goals rw [Builtin.run_pid, log_process]
  next =>
    rw [runProgram_alongside.pid, log_process]

theorem invoke_pid {i : Invocation} :
    (s.invoke host i).state.process.pid = s.process.pid := by
  simp only [invoke]
  split
  next => rfl
  next => split <;> exact runCommand_pid

end ShellState

namespace Statement

variable {env : Environment} {t u left right : Statement} {s s' : ShellState} {r : Result}
  {way : List Side}

/-- Shape, kinds, operands, the number of words, their kinds and their positions
stay the same. -/
theorem evaluate_outline (t : Statement) (s : ShellState) :
    (t.evaluate env s).form.outline = t.outline := by
  induction t generalizing s with
  | sequence left right ihl ihr | and left right ihl ihr | or left right ihl ihr =>
    simp only [evaluate]
    repeat' split
    all_goals simp [Evaluated.map, outline, ihl, ihr]
  | closed inner ih => simp [evaluate, Evaluated.map, outline, ih]
  | not inner ih =>
    simp only [evaluate]
    split
    all_goals simp [Evaluated.map, Evaluated.ofEffect, outline, ih]
  | pipeline => rfl
  | redirect r left => exact congrArg (redirect · left.outline) (r.outline_expand env s)
  | bare r => exact congrArg bare (r.outline_expand env s)
  | atom e =>
    cases e with
    | command i => exact congrArg (fun i => atom (.command i)) ShellState.invoke_outline
    | string i => exact congrArg (fun i => atom (.string i)) ShellState.invoke_outline
    | value n => rfl

theorem visits_left_iff (hf : t.first? = some left) :
    t.Visits env s (.left :: way) s' ↔ left.Visits env s way s' := by
  constructor
  · intro h
    cases h with
    | first hf' h =>
      rw [hf] at hf'
      cases hf'
      exact h
  · exact .first hf

theorem visits_right_iff (hf : t.first? = some left) :
    t.Visits env s (.right :: way) s' ↔
      ∃ r right, (left.evaluate env s).outcome = .value r ∧ t.next? r = some right ∧
        right.Visits env (left.evaluate env s).state way s' := by
  constructor
  · intro h
    cases h with
    | next hf' hl hn h =>
      rw [hf] at hf'
      cases hf'
      exact ⟨_, _, hl, hn, h⟩
  · rintro ⟨r, right, hl, hn, h⟩
    exact .next hf hl hn h

theorem not_visits_leaf (hleaf : t.first? = none) (side : Side) :
    ¬ t.Visits env s (side :: way) s' := by
  intro h
  cases h with
  | first hf | next hf =>
    rw [hleaf] at hf
    cases hf

theorem visits_unique {s'' : ShellState} (h : t.Visits env s way s')
    (h' : t.Visits env s way s'') : s' = s'' := by
  induction h with
  | here =>
    cases h'
    rfl
  | first hf _ ih => exact ih ((visits_left_iff hf).mp h')
  | next hf hl hn _ ih =>
    obtain ⟨r, right, hl', hn', h'⟩ := (visits_right_iff hf).mp h'
    rw [hl] at hl'
    cases hl'
    rw [hn] at hn'
    cases hn'
    exact ih h'

/-- The parts of a statement that evaluates none itself stay as they are. -/
theorem part?_leaf (hleaf : t.first? = none) (side : Side) :
    (t.evaluate env s).form.part? side = t.part? side := by
  cases t with
  | sequence | closed | and | or | not => cases hleaf
  | pipeline | redirect | bare | atom => cases side <;> rfl

theorem part?_first (hf : t.first? = some left) :
    t.part? .left = some left ∧
      (t.evaluate env s).form.part? .left = some (left.evaluate env s).form := by
  cases t with
  | sequence | and | or =>
    cases hf
    refine ⟨rfl, ?_⟩
    simp only [evaluate]
    repeat' split
    all_goals rfl
  | closed => cases hf; exact ⟨rfl, rfl⟩
  | not =>
    cases hf
    refine ⟨rfl, ?_⟩
    simp only [evaluate]
    split <;> rfl
  | pipeline | redirect | bare | atom => cases hf

theorem part?_next (hf : t.first? = some left) (hl : (left.evaluate env s).outcome = .value r)
    (hn : t.next? r = some right) :
    t.part? .right = some right ∧ (t.evaluate env s).form.part? .right =
      some (right.evaluate env (left.evaluate env s).state).form := by
  cases t with
  | sequence =>
    cases hf
    cases hn
    exact ⟨rfl, by simp only [evaluate, hl]; rfl⟩
  | and | or =>
    cases hf
    simp only [next?] at hn
    split at hn <;> cases hn
    exact ⟨rfl, by simp only [evaluate, *, ↓reduceIte]; rfl⟩
  | closed | not => cases hn
  | pipeline | redirect | bare | atom => cases hf

theorem part?_passed (hf : t.first? = some left)
    (hn : ∀ r, (left.evaluate env s).outcome = .value r → t.next? r = none) :
    (t.evaluate env s).form.part? .right = t.part? .right := by
  cases t with
  | sequence =>
    cases hf
    simp only [evaluate]
    split
    next hv => cases hn _ hv
    next => rfl
  | and | or =>
    cases hf
    simp only [evaluate]
    split
    next hv =>
      have hnone := hn _ hv
      simp only [next?] at hnone
      split at hnone <;> cases hnone
      simp only [*, ↓reduceIte]
      rfl
    next => rfl
  | closed => rfl
  | not =>
    simp only [evaluate]
    split <;> rfl
  | pipeline | redirect | bare | atom => cases hf

theorem evaluate_pid {host : Host} (t : Statement) (s : ShellState) :
    (t.evaluate host s).state.process.pid = s.process.pid := by
  induction t generalizing s with
  | sequence left right ihl ihr | and left right ihl ihr | or left right ihl ihr =>
    simp only [evaluate]
    repeat' split
    all_goals simp [Evaluated.map, ihl, ihr]
  | closed inner ih => exact ih s
  | not inner ih =>
    simp only [evaluate]
    split
    all_goals exact ih s
  | pipeline => exact ShellState.runPipeline_alongside.pid
  | redirect | bare => exact ShellState.runRedirected_alongside.pid
  | atom e =>
    cases e with
    | command | string => exact ShellState.invoke_pid
    | value => rfl

theorem visits_pid (h : t.Visits env s way s') : s'.process.pid = s.process.pid := by
  induction h with
  | here => rfl
  | first _ _ ih => exact ih
  | next _ _ _ _ ih => rw [ih, evaluate_pid]

/-- What an evaluation comes to is left as its own evaluation leaves it, and
what it does not come to is left alone. -/
theorem at?_evaluate (hu : t.at? way = some u) :
    (∃ s', t.Visits env s way s' ∧
      (t.evaluate env s).form.at? way = some (u.evaluate env s').form) ∨
    (∀ s', ¬ t.Visits env s way s') ∧ (t.evaluate env s).form.at? way = some u := by
  induction way generalizing t s with
  | nil =>
    cases hu
    exact .inl ⟨s, .here _ s, rfl⟩
  | cons side way ih =>
    obtain ⟨part, hpart, hat⟩ := Option.bind_eq_some_iff.mp hu
    have down {v v' : Statement} (h : v.part? side = some v') :
        v.at? (side :: way) = v'.at? way := by
      rw [at?, h]
      rfl
    cases hf : t.first? with
    | none =>
      refine .inr ⟨fun s' => not_visits_leaf hf side, ?_⟩
      rw [down ((part?_leaf hf side).trans hpart), hat]
    | some left =>
      cases side with
      | left =>
        obtain ⟨hleft, hform⟩ := @part?_first env t left s hf
        obtain rfl : left = part := Option.some.inj (hleft.symm.trans hpart)
        simp only [down hform, visits_left_iff hf]
        exact ih hat
      | right =>
        by_cases hnext : ∃ r right, (left.evaluate env s).outcome = .value r ∧
            t.next? r = some right
        · obtain ⟨r, right, hl, hn⟩ := hnext
          obtain ⟨hright, hform⟩ := part?_next hf hl hn
          obtain rfl : right = part := Option.some.inj (hright.symm.trans hpart)
          have hvisits (s' : ShellState) : t.Visits env s (.right :: way) s' ↔
              right.Visits env (left.evaluate env s).state way s' := by
            rw [visits_right_iff hf]
            simp [hl, hn]
          simp only [down hform, hvisits]
          exact ih hat
        · refine .inr ⟨fun s' hv => ?_, ?_⟩
          · obtain ⟨r, right, hl, hn, _⟩ := (visits_right_iff hf).mp hv
            exact hnext ⟨r, right, hl, hn⟩
          · have hpassed : ∀ r, (left.evaluate env s).outcome = .value r → t.next? r = none := by
              intro r hl
              cases hn : t.next? r with
              | none => rfl
              | some right => exact absurd ⟨r, right, hl, hn⟩ hnext
            rw [down ((part?_passed hf hpassed).trans hpart), hat]

theorem mem_atoms_of_at? {e : Expression} (h : t.at? way = some (atom e)) : e ∈ t.atoms := by
  induction way generalizing t with
  | nil =>
    cases h
    exact List.mem_singleton_self e
  | cons side way ih =>
    obtain ⟨part, hpart, hat⟩ := Option.bind_eq_some_iff.mp h
    have hmem := ih hat
    cases t with
    | sequence | and | or | pipeline =>
      cases side <;> cases hpart <;> simp [atoms, hmem]
    | closed | not | redirect =>
      cases side <;> cases hpart
      exact hmem
    | bare | atom => cases side <;> cases hpart

end Statement

def Expression.Fresh : Expression → Prop
  | command i | string i => i.memo = none
  | value _ => True

theorem Expression.fresh_word (t : Token) : (Expression.word t).Fresh := by
  unfold word
  split <;> rfl

theorem TokenQueue.fresh_of_read {q q' : TokenQueue} {t : Statement}
    (h : q.read = (.ok (some t), q')) : ∀ e ∈ t.atoms, e.Fresh := by
  obtain ⟨w, hd⟩ := Grammar.statement_of_read h
  exact Grammar.atoms_of_derives Expression.fresh_word (fun _ _ => rfl) hd

namespace Statement

theorem evaluate_atom {run : Invocation → Expression} (hrun : run = .command ∨ run = .string)
    (env : Environment) (i : Invocation) (s : ShellState) :
    (atom (run i)).evaluate env s = (s.invoke env i).map fun i => atom (run i) := by
  rcases hrun with rfl | rfl <;> rfl

theorem fresh_atom {t : Statement} {way : List Side} {run : Invocation → Expression}
    {i : Invocation} (ht : ∀ e ∈ t.atoms, e.Fresh) (hrun : run = .command ∨ run = .string)
    (hu : t.at? way = some (atom (run i))) : i.memo = none := by
  have hfresh := ht _ (mem_atoms_of_at? hu)
  rcases hrun with rfl | rfl <;> exact hfresh

/-- Where evaluation comes to, the part is replaced by what was evaluated there. -/
theorem at?_visited {t u : Statement} {env : Environment} {s s' : ShellState} {way : List Side}
    (hu : t.at? way = some u) (hv : t.Visits env s way s') :
    (t.evaluate env s).form.at? way = some (u.evaluate env s').form := by
  rcases at?_evaluate hu with ⟨s'', hv', hform⟩ | ⟨hnot, _⟩
  · rw [visits_unique hv hv']
    exact hform
  · exact absurd hv (hnot s')

theorem expand_visited {t : Statement} {env : Environment} {s s' : ShellState} {way : List Side}
    (hv : t.Visits env s way s') (r : Redirection) : r.expand env s' = r.expand env s := by
  rw [Redirection.expand, Redirection.expand, visits_pid hv]

/-- A command that remembers nothing remembers afterwards what it came to, if
evaluation has come to it. -/
theorem command_at? {t : Statement} {env : Environment} {s : ShellState} {way : List Side}
    {run : Invocation → Expression} {i : Invocation} (hrun : run = .command ∨ run = .string)
    (hu : t.at? way = some (atom (run i))) (hmemo : i.memo = none) :
    ∃ i', (t.evaluate env s).form.at? way = some (atom (run i')) ∧
      (∀ s', t.Visits env s way s' →
        i'.words = (i.mapWords (Expansion.expand env.home s.process.pid)).words) ∧
      ∀ m, i'.memo = some m ↔ ∃ s', t.Visits env s way s' ∧
        ((atom (run i)).evaluate env s').outcome = .value m.result ∧
        ((atom (run i)).evaluate env s').state.status = m.status := by
  rcases at?_evaluate hu with ⟨s', hv, hform⟩ | ⟨hnot, hform⟩
  · obtain ⟨hwords, hremembered⟩ := @ShellState.invoke_form env s' i hmemo
    rw [visits_pid hv] at hwords
    rw [evaluate_atom hrun] at hform
    refine ⟨_, hform, fun _ _ => hwords, fun m => ?_⟩
    rw [hremembered m]
    constructor
    · intro hm
      exact ⟨s', hv, by rw [evaluate_atom hrun]; exact hm⟩
    · rintro ⟨s'', hv', hm⟩
      rw [visits_unique hv hv']
      rw [evaluate_atom hrun] at hm
      exact hm
  · refine ⟨i, hform, fun s' hv => absurd hv (hnot s'), fun m => ?_⟩
    rw [hmemo]
    constructor
    · intro hm
      cases hm
    · rintro ⟨s', hv, _⟩
      exact absurd hv (hnot s')

end Statement

end TinyShell
