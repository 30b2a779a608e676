import TinyShell.Proofs.Forks.Turns

/-!
# Laws of the connectives

How conjunctions, disjunctions and sequences are grouped makes no difference,
nor does it whether a negation stands before a connective or before both of its
parts: whatever the commands do, the same ones are run in the same processes
and in the same order, and all comes to the same. The two forms record other
statuses on their way, at which no evaluation looks.
-/

set_option autoImplicit false

namespace TinyShell

namespace Statement

/-- From a state on, the two statements are the same to whoever watches: the
outcome, the process and the world, and the status if there is a result; the
turns that are taken, each in the same process and the same world; and what
the commands remember of it. -/
structure Interchangeable (env : Environment) (s : ShellState) (t u : Statement) : Prop where
  effect : Same (t.evaluate env s).effect (u.evaluate env s).effect
  turns : u.turns env s = t.turns env s
  commands : (u.evaluate env s).form.atoms = (t.evaluate env s).form.atoms

structure Ends (env : Environment) (t : Statement) (s : ShellState) (o : Outcome)
    (form : Statement) (s' : ShellState) (turns : List Turn) : Prop where
  evaluated : t.evaluate env s = ⟨o, form, s'⟩
  turns : t.turns env s = turns

inductive Ending (env : Environment) (t : Statement) (s : ShellState) : Prop
  | success {form : Statement} {s' : ShellState} {turns : List Turn}
      (h : Ends env t s (.value .success) form s' turns)
  | failure {r : Result} {form : Statement} {s' : ShellState} {turns : List Turn}
      (hr : r ≠ .success) (h : Ends env t s (.value r) form s' turns)
  | abrupt {o : Outcome} {form : Statement} {s' : ShellState} {turns : List Turn}
      (ho : o.isAbrupt = true) (h : Ends env t s o form s' turns)

variable {env : Environment} {s s₁ s₂ : ShellState} {a b c t u f g : Statement} {o : Outcome}
  {r : Result} {ts us : List Turn}

theorem ending (env : Environment) (t : Statement) (s : ShellState) : Ending env t s := by
  have h : Ends env t s (t.evaluate env s).outcome (t.evaluate env s).form
      (t.evaluate env s).state (t.turns env s) := ⟨rfl, rfl⟩
  cases ho : (t.evaluate env s).outcome with
  | value r =>
    rw [ho] at h
    by_cases hr : r = .success
    · exact .success (hr ▸ h)
    · exact .failure hr h
  | leave | failed | replaced => exact .abrupt (by rw [ho]; rfl) h

theorem value_or_abrupt (env : Environment) (t : Statement) (s : ShellState) :
    (∃ r form s' turns, Ends env t s (.value r) form s' turns) ∨
      ∃ o form s' turns, o.isAbrupt = true ∧ Ends env t s o form s' turns := by
  cases ending env t s with
  | success h | failure _ h => exact .inl ⟨_, _, _, _, h⟩
  | abrupt ho h => exact .inr ⟨_, _, _, _, ho, h⟩

theorem failure_ne_success : Result.failure ≠ Result.success := by decide

namespace Ends

/-- What cuts the left side short leaves nothing for the right one. -/
theorem left_abrupt {join : Statement → Statement → Statement}
    (hj : join = sequence ∨ join = and ∨ join = or) (h : Ends env a s o f s₁ ts)
    (ho : o.isAbrupt = true) : Ends env (join a b) s o (join f b) s₁ ts := by
  cases o with
  | value => cases ho
  | leave | failed | replaced =>
    rcases hj with rfl | rfl | rfl <;> constructor
    all_goals
      simp only [evaluate, Statement.turns, h.evaluated, h.turns, Evaluated.map, List.append_nil]

theorem sequence_abrupt (h : Ends env a s o f s₁ ts) (ho : o.isAbrupt = true) :
    Ends env (sequence a b) s o (sequence f b) s₁ ts := h.left_abrupt (.inl rfl) ho

theorem and_abrupt (h : Ends env a s o f s₁ ts) (ho : o.isAbrupt = true) :
    Ends env (and a b) s o (and f b) s₁ ts := h.left_abrupt (.inr (.inl rfl)) ho

theorem or_abrupt (h : Ends env a s o f s₁ ts) (ho : o.isAbrupt = true) :
    Ends env (or a b) s o (or f b) s₁ ts := h.left_abrupt (.inr (.inr rfl)) ho

theorem sequence_value (h : Ends env a s (.value r) f s₁ ts) (h' : Ends env b s₁ o g s₂ us) :
    Ends env (sequence a b) s o (sequence f g) s₂ (ts ++ us) where
  evaluated := by simp only [evaluate, h.evaluated, h'.evaluated, Evaluated.map]
  turns := by simp only [Statement.turns, h.evaluated, h.turns, h'.turns]

theorem and_success (h : Ends env a s (.value .success) f s₁ ts) (h' : Ends env b s₁ o g s₂ us) :
    Ends env (and a b) s o (and f g) s₂ (ts ++ us) where
  evaluated := by simp only [evaluate, h.evaluated, h'.evaluated, Evaluated.map, ↓reduceIte]
  turns := by simp only [Statement.turns, h.evaluated, h.turns, h'.turns, ↓reduceIte]

theorem and_failure (h : Ends env a s (.value r) f s₁ ts) (hr : r ≠ .success) :
    Ends env (and a b) s (.value .failure) (and f b) s₁ ts where
  evaluated := by simp only [evaluate, h.evaluated, hr, ↓reduceIte]
  turns := by simp only [Statement.turns, h.evaluated, h.turns, hr, ↓reduceIte, List.append_nil]

theorem or_success (h : Ends env a s (.value .success) f s₁ ts) :
    Ends env (or a b) s (.value .success) (or f b) s₁ ts where
  evaluated := by simp only [evaluate, h.evaluated, ↓reduceIte]
  turns := by simp only [Statement.turns, h.evaluated, h.turns, ↓reduceIte, List.append_nil]

theorem or_failure (h : Ends env a s (.value r) f s₁ ts) (hr : r ≠ .success)
    (h' : Ends env b s₁ o g s₂ us) : Ends env (or a b) s o (or f g) s₂ (ts ++ us) where
  evaluated := by simp only [evaluate, h.evaluated, h'.evaluated, Evaluated.map, hr, ↓reduceIte]
  turns := by simp only [Statement.turns, h.evaluated, h.turns, h'.turns, hr, ↓reduceIte]

theorem not_success (h : Ends env a s (.value .success) f s₁ ts) :
    Ends env (not a) s (.value .failure) (not f) (s₁.withStatus 1) ts where
  evaluated := by
    simp only [evaluate, h.evaluated, ↓reduceIte]
    rfl
  turns := h.turns

theorem not_failure (h : Ends env a s (.value r) f s₁ ts) (hr : r ≠ .success) :
    Ends env (not a) s (.value .success) (not f) (s₁.withStatus 0) ts where
  evaluated := by
    simp only [evaluate, h.evaluated, hr, ↓reduceIte]
    rfl
  turns := h.turns

theorem not_abrupt (h : Ends env a s o f s₁ ts) (ho : o.isAbrupt = true) :
    Ends env (not a) s o (not f) s₁ ts := by
  cases o with
  | value => cases ho
  | leave | failed | replaced =>
    constructor
    · simp only [evaluate, h.evaluated, Evaluated.map]
    · exact h.turns

/-- What finds another status ends alike, and in the same state if there is a
result. -/
theorem withStatus (h : Ends env a s o f s₁ ts) (ha : ∀ e ∈ a.atoms, ∀ m, e ≠ .value m) (n : Nat) :
    ∃ s₂, Ends env a (s.withStatus n) o f s₂ ts ∧ Same (o, s₁) (o, s₂) := by
  have halike : Alike (a.evaluate env s) (a.evaluate env (s.withStatus n)) :=
    evaluate_alike ha s n
  rw [h.evaluated] at halike
  obtain ⟨hform, heffect⟩ := halike
  have houtcome := heffect.outcome
  generalize he : a.evaluate env (s.withStatus n) = e at hform heffect houtcome
  obtain ⟨o', f', s₂⟩ := e
  simp only [Evaluated.effect] at hform heffect houtcome
  subst hform houtcome
  exact ⟨s₂, ⟨he, by rw [turns_withStatus ha, h.turns]⟩, heffect⟩

theorem value_withStatus (h : Ends env a s (.value r) f s₁ ts)
    (ha : ∀ e ∈ a.atoms, ∀ m, e ≠ .value m) (n : Nat) :
    Ends env a (s.withStatus n) (.value r) f s₁ ts := by
  obtain ⟨s₂, h', hs⟩ := h.withStatus ha n
  obtain rfl : s₂ = s₁ := hs.eq_of_value rfl
  exact h'

theorem interchangeable (ht : Ends env t s o f s₁ ts) (hu : Ends env u s o g s₂ us)
    (hs : Same (o, s₁) (o, s₂)) (hts : us = ts) (hc : g.atoms = f.atoms) :
    Interchangeable env s t u where
  effect := by rwa [ht.evaluated, hu.evaluated]
  turns := by rw [ht.turns, hu.turns, hts]
  commands := by rwa [ht.evaluated, hu.evaluated]

end Ends

section Laws

variable (env : Environment) (s : ShellState) (a b c : Statement)

theorem and_grouped : Interchangeable env s (and (and a b) c) (and a (and b c)) := by
  cases ending env a s with
  | @success f s₁ ts ha =>
    cases ending env b s₁ with
    | @success g s₂ us hb =>
      have hc : Ends env c s₂ _ _ _ _ := ⟨rfl, rfl⟩
      exact ((ha.and_success hb).and_success hc).interchangeable
        (ha.and_success (hb.and_success hc)) (.refl _) (by simp) (by simp [atoms])
    | failure hr hb =>
      exact ((ha.and_success hb).and_failure hr).interchangeable
        (ha.and_success (hb.and_failure hr)) (.refl _) rfl (by simp [atoms])
    | abrupt ho hb =>
      exact ((ha.and_success hb).and_abrupt ho).interchangeable
        (ha.and_success (hb.and_abrupt ho)) (.refl _) rfl (by simp [atoms])
  | failure hr ha =>
    exact ((ha.and_failure hr).and_failure failure_ne_success).interchangeable
      (ha.and_failure hr) (.refl _) rfl (by simp [atoms])
  | abrupt ho ha =>
    exact ((ha.and_abrupt ho).and_abrupt ho).interchangeable (ha.and_abrupt ho) (.refl _) rfl
      (by simp [atoms])

theorem or_grouped : Interchangeable env s (or (or a b) c) (or a (or b c)) := by
  cases ending env a s with
  | success ha =>
    exact ha.or_success.or_success.interchangeable ha.or_success (.refl _) rfl (by simp [atoms])
  | @failure _ f s₁ ts hr ha =>
    cases ending env b s₁ with
    | success hb =>
      exact (ha.or_failure hr hb).or_success.interchangeable
        (ha.or_failure hr hb.or_success) (.refl _) rfl (by simp [atoms])
    | @failure _ g s₂ us hr' hb =>
      have hc : Ends env c s₂ _ _ _ _ := ⟨rfl, rfl⟩
      exact ((ha.or_failure hr hb).or_failure hr' hc).interchangeable
        (ha.or_failure hr (hb.or_failure hr' hc)) (.refl _) (by simp) (by simp [atoms])
    | abrupt ho hb =>
      exact ((ha.or_failure hr hb).or_abrupt ho).interchangeable
        (ha.or_failure hr (hb.or_abrupt ho)) (.refl _) rfl (by simp [atoms])
  | abrupt ho ha =>
    exact ((ha.or_abrupt ho).or_abrupt ho).interchangeable (ha.or_abrupt ho) (.refl _) rfl
      (by simp [atoms])

theorem sequence_grouped :
    Interchangeable env s (sequence (sequence a b) c) (sequence a (sequence b c)) := by
  rcases value_or_abrupt env a s with ⟨_, _, s₁, _, ha⟩ | ⟨_, _, _, _, ho, ha⟩
  · rcases value_or_abrupt env b s₁ with ⟨_, _, s₂, _, hb⟩ | ⟨_, _, _, _, ho, hb⟩
    · have hc : Ends env c s₂ _ _ _ _ := ⟨rfl, rfl⟩
      exact ((ha.sequence_value hb).sequence_value hc).interchangeable
        (ha.sequence_value (hb.sequence_value hc)) (.refl _) (by simp) (by simp [atoms])
    · exact ((ha.sequence_value hb).sequence_abrupt ho).interchangeable
        (ha.sequence_value (hb.sequence_abrupt ho)) (.refl _) rfl (by simp [atoms])
  · exact ((ha.sequence_abrupt ho).sequence_abrupt ho).interchangeable (ha.sequence_abrupt ho)
      (.refl _) rfl (by simp [atoms])

/-- The right side of the disjunction finds the status of a negation. -/
theorem not_and (hb : ∀ e ∈ b.atoms, ∀ m, e ≠ .value m) :
    Interchangeable env s (not (and a b)) (or (not a) (not b)) := by
  cases ending env a s with
  | @success f s₁ ts ha =>
    have hright {o : Outcome} {g : Statement} {s₂ : ShellState} {us : List Turn}
        (h : Ends env (not b) (s₁.withStatus 1) o g s₂ us) :
        Ends env (or (not a) (not b)) s o (or (not f) g) s₂ (ts ++ us) :=
      ha.not_success.or_failure failure_ne_success h
    cases ending env b s₁ with
    | success h =>
      exact (ha.and_success h).not_success.interchangeable
        (hright (h.value_withStatus hb 1).not_success) (.refl _) rfl (by simp [atoms])
    | failure hr h =>
      exact ((ha.and_success h).not_failure hr).interchangeable
        (hright ((h.value_withStatus hb 1).not_failure hr)) (.refl _) rfl (by simp [atoms])
    | abrupt ho h =>
      obtain ⟨s₂, h', hs⟩ := h.withStatus hb 1
      exact ((ha.and_success h).not_abrupt ho).interchangeable (hright (h'.not_abrupt ho)) hs rfl
        (by simp [atoms])
  | failure hr ha =>
    exact ((ha.and_failure hr).not_failure failure_ne_success).interchangeable
      (ha.not_failure hr).or_success (.refl _) rfl (by simp [atoms])
  | abrupt ho ha =>
    exact ((ha.and_abrupt ho).not_abrupt ho).interchangeable ((ha.not_abrupt ho).or_abrupt ho)
      (.refl _) rfl (by simp [atoms])

/-- The right side of the conjunction finds the status of a negation. -/
theorem not_or (hb : ∀ e ∈ b.atoms, ∀ m, e ≠ .value m) :
    Interchangeable env s (not (or a b)) (and (not a) (not b)) := by
  cases ending env a s with
  | success ha =>
    exact ha.or_success.not_success.interchangeable
      (ha.not_success.and_failure failure_ne_success) (.refl _) rfl (by simp [atoms])
  | @failure _ f s₁ ts hr ha =>
    have hright {o : Outcome} {g : Statement} {s₂ : ShellState} {us : List Turn}
        (h : Ends env (not b) (s₁.withStatus 0) o g s₂ us) :
        Ends env (and (not a) (not b)) s o (and (not f) g) s₂ (ts ++ us) :=
      (ha.not_failure hr).and_success h
    cases ending env b s₁ with
    | success h =>
      exact (ha.or_failure hr h).not_success.interchangeable
        (hright (h.value_withStatus hb 0).not_success) (.refl _) rfl (by simp [atoms])
    | failure hr' h =>
      exact ((ha.or_failure hr h).not_failure hr').interchangeable
        (hright ((h.value_withStatus hb 0).not_failure hr')) (.refl _) rfl (by simp [atoms])
    | abrupt ho h =>
      obtain ⟨s₂, h', hs⟩ := h.withStatus hb 0
      exact ((ha.or_failure hr h).not_abrupt ho).interchangeable (hright (h'.not_abrupt ho)) hs rfl
        (by simp [atoms])
  | abrupt ho ha =>
    exact ((ha.or_abrupt ho).not_abrupt ho).interchangeable ((ha.not_abrupt ho).and_abrupt ho)
      (.refl _) rfl (by simp [atoms])

theorem not_not_not : Interchangeable env s (not (not (not a))) (not a) := by
  cases ending env a s with
  | success h =>
    exact ((h.not_success.not_failure failure_ne_success).not_success).interchangeable
      h.not_success (.refl _) rfl (by simp [atoms])
  | failure hr h =>
    exact (((h.not_failure hr).not_success).not_failure failure_ne_success).interchangeable
      (h.not_failure hr) (.refl _) rfl (by simp [atoms])
  | abrupt ho h =>
    exact (((h.not_abrupt ho).not_abrupt ho).not_abrupt ho).interchangeable (h.not_abrupt ho)
      (.refl _) rfl (by simp [atoms])

end Laws

/-- Conjunctions, disjunctions and sequences associate, a negation changes
places with a conjunction or a disjunction, and three negations are one. Only
`b` ever finds another status, so only of `b` it matters that none of its
commands is a number. -/
theorem connectives_interchange (env : Environment) (s : ShellState) (a b c : Statement)
    (hb : ∀ e ∈ b.atoms, ∀ m, e ≠ .value m) :
    Interchangeable env s (and (and a b) c) (and a (and b c)) ∧
    Interchangeable env s (or (or a b) c) (or a (or b c)) ∧
    Interchangeable env s (sequence (sequence a b) c) (sequence a (sequence b c)) ∧
    Interchangeable env s (not (and a b)) (or (not a) (not b)) ∧
    Interchangeable env s (not (or a b)) (and (not a) (not b)) ∧
    Interchangeable env s (not (not (not a))) (not a) :=
  ⟨and_grouped env s a b c, or_grouped env s a b c, sequence_grouped env s a b c,
    not_and env s a b hb, not_or env s a b hb, not_not_not env s a⟩

/-- The right side may leave the shell. -/
theorem connectives_interchange_leaving :
    Interchangeable Console.environment Console.shell
      (not (and (plain Builtin.help.name []) (plain Builtin.exit.name [])))
      (or (not (plain Builtin.help.name [])) (not (plain Builtin.exit.name []))) ∧
    ((not (and (plain Builtin.help.name []) (plain Builtin.exit.name []))).evaluate
      Console.environment Console.shell).outcome = .leave 0 :=
  ⟨(connectives_interchange Console.environment Console.shell _ _ (plain [] [])
    (by simp [atoms, plain])).2.2.2.1, by decide +kernel⟩

/-- Numbers would tell what status they find, from either side of a pipe. -/
example :
    let numbers := pipeline (atom (.value 1)) (atom (.value 1))
    let outcome (t : Statement) := (t.evaluate Console.environment Console.shell).outcome
    outcome (not (and (plain Builtin.help.name []) numbers)) = .value .failure ∧
      outcome (or (not (plain Builtin.help.name [])) (not numbers)) = .value .success := by
  decide +kernel

end Statement

end TinyShell
