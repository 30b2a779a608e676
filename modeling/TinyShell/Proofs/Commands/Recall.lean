import TinyShell.Machine.Console
import TinyShell.Proofs.Forks.Containment

/-!
# Evaluating a statement again

A command that has come to a value remembers it. Which parts of a statement
are evaluated depends on such values only, so a second evaluation takes the
way of the first one and meets no command that does not remember. It runs
nothing, wherever and whenever it is done.
-/

set_option autoImplicit false

namespace TinyShell

def Memo.negated (m : Memo) : Memo :=
  if m.result = .success then ⟨.failure, 1⟩ else ⟨.success, 0⟩

namespace Statement

def isUnforked : Statement → Bool
  | sequence left right | and left right | or left right => left.isUnforked && right.isUnforked
  | closed inner | not inner => inner.isUnforked
  | atom (.command _) | atom (.string _) => true
  | atom (.value _) | pipeline _ _ | redirect _ _ | bare _ => false

/-- On the way that an evaluation takes through the statement every command
remembers, and together they come to what is given. -/
inductive Recalls : Statement → Memo → Prop
  | command {i : Invocation} {m : Memo} (h : i.memo = some m) : Recalls (atom (.command i)) m
  | string {i : Invocation} {m : Memo} (h : i.memo = some m) : Recalls (atom (.string i)) m
  | sequence {left right : Statement} {m n : Memo} (hl : Recalls left m)
      (hr : Recalls right n) : Recalls (sequence left right) n
  | closed {inner : Statement} {m : Memo} (h : Recalls inner m) : Recalls (closed inner) m
  | and {left right : Statement} {m n : Memo} (hl : Recalls left m)
      (hs : m.result = .success) (hr : Recalls right n) : Recalls (and left right) n
  | andFailed {left right : Statement} {m : Memo} (hl : Recalls left m)
      (hs : m.result ≠ .success) : Recalls (and left right) ⟨.failure, m.status⟩
  | or {left right : Statement} {m n : Memo} (hl : Recalls left m)
      (hs : m.result ≠ .success) (hr : Recalls right n) : Recalls (or left right) n
  | orSucceeded {left right : Statement} {m : Memo} (hl : Recalls left m)
      (hs : m.result = .success) : Recalls (or left right) ⟨.success, m.status⟩
  | not {inner : Statement} {m : Memo} (h : Recalls inner m) : Recalls (not inner) m.negated

variable {env : Environment} {t u left right : Statement} {s s' : ShellState} {r : Result}
  {m : Memo}

theorem invoke_remembers {i : Invocation} (h : (s.invoke env i).outcome = .value r) :
    (s.invoke env i).form.memo = some ⟨r, (s.invoke env i).state.status⟩ := by
  cases hm : i.memo with
  | some memo =>
    simp only [ShellState.invoke, hm] at h ⊢
    cases h
    rfl
  | none =>
    simp only [ShellState.invoke, hm] at h ⊢
    split at h
    next => cases h; rfl
    next ho => exact absurd h (ho r)

theorem finish_negated (m : Memo) (s : ShellState) :
    s.finish (if m.result = .success then 1 else 0) =
      (.value m.negated.result, { s with status := m.negated.status }) := by
  unfold Memo.negated
  split <;> rfl

theorem recalls_of_evaluate (ht : t.isUnforked = true)
    (h : (t.evaluate env s).outcome = .value r) :
    Recalls (t.evaluate env s).form ⟨r, (t.evaluate env s).state.status⟩ := by
  induction t generalizing s r with
  | sequence left right ihl ihr =>
    obtain ⟨hleft, hright⟩ := (Bool.and_eq_true _ _).mp ht
    simp only [evaluate] at h ⊢
    split at h
    next hl => exact .sequence (ihl hleft hl) (ihr hright h)
    next hl => exact absurd h (hl r)
  | closed inner ih => exact .closed (ih ht h)
  | and left right ihl ihr =>
    obtain ⟨hleft, hright⟩ := (Bool.and_eq_true _ _).mp ht
    simp only [evaluate] at h ⊢
    split at h
    next result hl =>
      by_cases hs : result = .success
      · rw [if_pos hs] at h ⊢
        exact .and (ihl hleft hl) hs (ihr hright h)
      · rw [if_neg hs] at h ⊢
        cases h
        exact .andFailed (ihl hleft hl) hs
    next hl => exact absurd h (hl r)
  | or left right ihl ihr =>
    obtain ⟨hleft, hright⟩ := (Bool.and_eq_true _ _).mp ht
    simp only [evaluate] at h ⊢
    split at h
    next result hl =>
      by_cases hs : result = .success
      · rw [if_pos hs] at h ⊢
        cases h
        exact .orSucceeded (ihl hleft hl) hs
      · rw [if_neg hs] at h ⊢
        exact .or (ihl hleft hl) hs (ihr hright h)
    next hl => exact absurd h (hl r)
  | not inner ih =>
    simp only [evaluate] at h ⊢
    split at h
    next result hi =>
      have hn := finish_negated ⟨result, (inner.evaluate env s).state.status⟩
        (inner.evaluate env s).state
      simp only [hn] at h ⊢
      cases h
      exact .not (ih ht hi)
    next hi => exact absurd h (hi r)
  | atom expression =>
    cases expression with
    | command i => exact .command (invoke_remembers h)
    | string i => exact .string (invoke_remembers h)
    | value n => cases ht
  | pipeline | redirect | bare => cases ht

/-- What is remembered on the way is all that an evaluation comes to. -/
theorem evaluate_of_recalls (h : Recalls t m) (env : Environment) (s : ShellState) :
    t.evaluate env s = ⟨.value m.result, t, { s with status := m.status }⟩ := by
  induction h generalizing s with
  | command h | string h =>
    simp only [evaluate, Expression.evaluate, ShellState.invoke, h]
    rfl
  | sequence _ _ ihl ihr =>
    simp only [evaluate, ihl, ihr]
    rfl
  | closed _ ih =>
    simp only [evaluate, ih]
    rfl
  | and _ hs _ ihl ihr | or _ hs _ ihl ihr =>
    simp only [evaluate, ihl, ihr, hs, ↓reduceIte]
    rfl
  | andFailed _ hs ihl | orSucceeded _ hs ihl => simp only [evaluate, ihl, hs, ↓reduceIte]
  | not _ ih =>
    simp only [evaluate, ih, finish_negated]
    rfl

theorem recalls_first (h : Recalls t m) (hf : t.first? = some left) :
    ∃ n, Recalls left n := by
  cases h <;> cases hf <;> exact ⟨_, by assumption⟩

theorem recalls_next (h : Recalls t m) (hf : t.first? = some left)
    (hl : (left.evaluate env s).outcome = .value r) (hn : t.next? r = some right) :
    ∃ n, Recalls right n := by
  have same {m : Memo} (h : Recalls left m) : r = m.result := by
    rw [evaluate_of_recalls h] at hl
    exact (Outcome.value.inj hl).symm
  cases h with
  | sequence hleft hright =>
    cases hn
    exact ⟨_, hright⟩
  | and hleft hs hright | or hleft hs hright =>
    cases hf
    simp only [next?, same hleft, hs, ↓reduceIte] at hn
    cases hn
    exact ⟨_, hright⟩
  | andFailed hleft hs | orSucceeded hleft hs =>
    cases hf
    simp only [next?, same hleft, hs, ↓reduceIte] at hn
    cases hn
  | closed | not => cases hn
  | command | string => cases hf

theorem recalls_reached (h : Recalls t m) (hr : t.Reaches env s u s') : ∃ n, Recalls u n := by
  induction hr generalizing m with
  | here => exact ⟨m, h⟩
  | first hf _ ih =>
    obtain ⟨n, hleft⟩ := recalls_first h hf
    exact ih hleft
  | next hf hl hn _ ih =>
    obtain ⟨n, hright⟩ := recalls_next h hf hl hn
    exact ih hright

theorem not_runs_of_recalls {e : Expression} (h : Recalls (atom e) m) (words : List Text) :
    ¬ e.Runs env s words := by
  rintro ⟨i, rfl | rfl, hm, _⟩
  · cases h with
    | command h =>
      rw [h] at hm
      cases hm
  · cases h with
    | string h =>
      rw [h] at hm
      cases hm

/-- A statement that has come to a value comes to it again, with the same
status, in every environment and in every state. Nothing else changes: no words
are run on the way, and the statement stays as it is. -/
theorem evaluated_again (ht : t.isUnforked = true)
    (h : (t.evaluate env s).outcome = .value r) (env' : Environment) (s' : ShellState) :
    (t.evaluate env s).form.evaluate env' s' =
      ⟨.value r, (t.evaluate env s).form,
        { s' with status := (t.evaluate env s).state.status }⟩ ∧
    ∀ e s'' words, (t.evaluate env s).form.Reaches env' s' (.atom e) s'' →
      ¬ e.Runs env' s'' words := by
  have hrecalls := recalls_of_evaluate ht h
  constructor
  · exact evaluate_of_recalls hrecalls env' s'
  · intro e s'' words hr
    obtain ⟨n, hatom⟩ := recalls_reached hrecalls hr
    exact not_runs_of_recalls hatom words

/-- In `cd a b && help` the `help` is passed over. It remembers nothing, and it
is passed over again. -/
theorem evaluated_again_passing_over : ∃ (env : Environment) (s : ShellState) (cd help : Token)
    (a b : Token) (t : Statement), t.isUnforked = true ∧
      (t.evaluate env s).outcome = .value .failure ∧
      (t.evaluate env s).form = .and (.atom (.command ⟨cd, [a, b], some ⟨.failure, 1⟩⟩))
        (.atom (.command ⟨help, [], none⟩)) ∧
      ∀ (env' : Environment) s',
        ((t.evaluate env s).form.evaluate env' s').outcome = .value .failure ∧
        ((t.evaluate env s).form.evaluate env' s').state.world = s'.world := by
  refine ⟨⟨none, none, Image.run, false, ⟨[], false, none⟩⟩,
    ⟨Console.process 1 [], Console.world World.standardTree [], 7⟩,
    ⟨.command, Builtin.cd.name, ⟨1, 1⟩⟩, ⟨.command, Builtin.help.name, ⟨1, 11⟩⟩,
    ⟨.command, ['a'], ⟨1, 4⟩⟩, ⟨.command, ['b'], ⟨1, 6⟩⟩,
    .and (.atom (.command ⟨⟨.command, Builtin.cd.name, ⟨1, 1⟩⟩,
      [⟨.command, ['a'], ⟨1, 4⟩⟩, ⟨.command, ['b'], ⟨1, 6⟩⟩], none⟩))
      (.atom (.command ⟨⟨.command, Builtin.help.name, ⟨1, 11⟩⟩, [], none⟩)),
    rfl, by decide +kernel, by decide +kernel, fun env' s' => ?_⟩
  rw [(evaluated_again (r := .failure) rfl (by decide +kernel) env' s').1]
  exact ⟨rfl, rfl⟩

end Statement

end TinyShell
