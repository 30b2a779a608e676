import TinyShell.Proofs.Commands.Substitution
import TinyShell.Proofs.Forks.Containment

/-!
# The home directory in words and commands

The home directory is put in the place of a tilde before the marks of a word
are looked for, so its own text is searched with the rest of the word. It is
found in the word as it is exactly if it holds no mark. A bare `cd` takes it
without looking into it: with a mark in it, `cd ~` goes elsewhere.
-/

set_option autoImplicit false

namespace TinyShell

namespace Tree

structure Alike (t t' : Tree) : Prop where
  taken : ∀ l, (t'.find? l).isSome = (t.find? l).isSome
  directories : ∀ l, t'.isDirectory l = t.isDirectory l

variable {t t' : Tree} {l : Location}

theorem Alike.refl (t : Tree) : t.Alike t := ⟨fun _ => rfl, fun _ => rfl⟩

theorem alike_put {bits bits' : Nat} {content content' : Bytes}
    (h : t.find? l = some (.file bits content)) : t.Alike (t.put l (.file bits' content')) := by
  have hl : l ≠ [] := by
    rintro rfl
    cases h
  constructor
  · intro l'
    by_cases hne : l = l'
    · subst hne
      rw [find?_put_self _ _ _ hl, h]
      rfl
    · rw [find?_put_of_ne t _ hne]
  · intro l'
    by_cases hne : l = l'
    · subst hne
      rw [isDirectory, isDirectory, find?_put_self _ _ _ hl, h]
      rfl
    · rw [isDirectory, isDirectory, find?_put_of_ne t _ hne]

theorem Alike.walk (h : t.Alike t') (l : Location) (names : List Text) :
    t'.walk l names = t.walk l names := by
  induction names generalizing l with
  | nil => rfl
  | cons name names ih =>
    have hstep : t'.step l name = t.step l name := by
      simp only [step, h.taken, h.directories]
    simp only [Tree.walk, hstep, ih]

/-- Every path leads to the same place, or fails for the same reason. -/
theorem Alike.locate (h : t.Alike t') (directory : Location) (path : Text) :
    t'.locate directory path = t.locate directory path := by
  simp only [Tree.locate, h.walk, h.directories]

end Tree

namespace World

theorem writeOpening_alike (w : World) (id : Nat) (bytes : Bytes) :
    w.tree.Alike (w.writeOpening id bytes).2.tree := by
  simp only [writeOpening]
  split
  next => exact .refl _
  next =>
    split
    next => exact .refl _
    next =>
      split
      next => exact .refl _
      next =>
        split
        next hf => exact Tree.alike_put hf
        next => exact .refl _

end World

theorem Process.say_alike (p : Process) (w : World) (fd : Nat) (bytes : Bytes) :
    w.tree.Alike (p.say w fd bytes).tree := by
  simp only [say, write]
  split
  next => exact .refl _
  next => exact w.writeOpening_alike _ bytes

theorem Process.enter_alike {w w' : World} (h : w.tree.Alike w'.tree) (p : Process)
    (path : Text) : p.enter w' path = p.enter w path := by
  simp only [enter, h.locate, h.directories]

theorem Process.enter_nul {path : Text} (h : Text.hasNul path = true) (p : Process) (w : World) :
    p.enter w path = .error .invalidArgument := by
  simp [enter, Tree.locate, Path.check, h]

namespace ShellState

variable {env : Environment} {s : ShellState} {path : Text}

theorem log_alike (severity : Severity) (message : Text) :
    s.world.tree.Alike (s.log env severity message).world.tree := by
  unfold log
  split
  next => exact s.process.say_alike s.world 2 _
  next => exact .refl _

def entering (path : Text) (s : ShellState) : Outcome × Process × Nat :=
  match s.process.enter s.world path with
  | .ok process => (.value .success, process, 0)
  | .error _ => (.value .failure, s.process, 1)

end ShellState

def Environment.Leads (env : Environment) (arguments : List Text) (path : Text) : Prop :=
  arguments = [path] ∨ arguments = [] ∧ env.home = some path

namespace ShellState

variable {env : Environment} {s : ShellState} {path : Text} {arguments : List Text}

theorem runCd_leads (h : env.Leads arguments path) (sink : Sink) :
    (∃ p, s.process.enter s.world path = .ok p ∧
      Builtin.runCd env arguments sink s = (.value .success, sink, { s with process := p })) ∨
    ∃ e complaint, s.process.enter s.world path = .error e ∧
      Builtin.runCd env arguments sink s = (Builtin.complain complaint, sink, s) := by
  rcases h with rfl | ⟨rfl, hhome⟩
  all_goals
    simp only [Builtin.runCd, *]
    cases hnul : Text.hasNul path with
    | true => exact .inr ⟨_, _, Process.enter_nul hnul _ _, rfl⟩
    | false =>
      cases he : s.process.enter s.world path with
      | ok p => exact .inl ⟨p, rfl, rfl⟩
      | error e => exact .inr ⟨e, _, rfl, rfl⟩

theorem runCommand_cd (h : env.Leads arguments path) :
    ((s.runCommand env Builtin.cd.name arguments).1,
      (s.runCommand env Builtin.cd.name arguments).2.process,
      (s.runCommand env Builtin.cd.name arguments).2.status) = s.entering path := by
  have hname : Builtin.ofName? Builtin.cd.name = some .cd := Builtin.ofName?_eq_some.mpr rfl
  have hentered := Process.enter_alike (@log_alike env s .trace
    ("invoking " ++ Text.quotedList (Builtin.cd.name :: arguments))) s.process path
  simp only [runCommand, hname, runBuiltin, Builtin.run]
  generalize Sink.ofDescriptor 1 _ = sink
  rcases runCd_leads (s := s.log env .trace
    ("invoking " ++ Text.quotedList (Builtin.cd.name :: arguments))) h sink
    with ⟨p, hp, hrun⟩ | ⟨e, complaint, he, hrun⟩
  · rw [log_process, hentered] at hp
    simp [hrun, settle, entering, hp]
  · rw [log_process, hentered] at he
    simp [hrun, Builtin.complain, settle, entering, he, finish, record]

end ShellState

namespace Expression

def Says (e : Expression) (words : List Text) : Prop :=
  ∃ i, (e = .command i ∨ e = .string i) ∧ i.memo = none ∧ i.words.map Token.text = words

variable {env : Environment} {e : Expression} {s : ShellState} {words : List Text}

def typed (head : Text) (arguments : List Text) : Expression :=
  .command ⟨⟨.command, head, ⟨1, 1⟩⟩, arguments.map fun text => ⟨.command, text, ⟨1, 4⟩⟩, none⟩

theorem typed_says (head : Text) (arguments : List Text) :
    (typed head arguments).Says (head :: arguments) :=
  ⟨_, .inl rfl, rfl, by simp [Invocation.words, Function.comp_def]⟩

theorem Says.runs (h : e.Says words) :
    e.Runs env s (words.map (Expansion.expand env.home s.process.pid)) := by
  obtain ⟨i, he, hm, rfl⟩ := h
  refine ⟨i, he, hm, ?_⟩
  simp [Invocation.mapWords, Invocation.words, Function.comp_def]

end Expression

def Evaluated.course {α : Type} (e : Evaluated α) : Outcome × Process × Nat :=
  (e.outcome, e.state.process, e.state.status)

namespace Expansion

def Marked (text : Text) : Prop := pidMark <:+: text ∨ versionMark <:+: text

theorem not_marked_nil : ¬ Marked [] := by
  rintro (h | h) <;> cases List.infix_nil.mp h

/-- A mark is the first thing in a text, or occurs behind its first character. -/
theorem marked_cons {c : Char} {rest : Text} : Marked (c :: rest) ↔
    (pidMark <+: c :: rest ∨ versionMark <+: c :: rest) ∨ Marked rest := by
  simp only [Marked, List.infix_cons_iff]
  exact or_or_or_comm

variable (pid : Nat)

/-- A pass leaves a text as it is exactly if there is no mark in it. -/
theorem scan_eq_self_iff (text : Text) : scan pid text = text ↔ ¬ Marked text := by
  have inserted {front rest more : Text} {d : Char} (hd : d.isDigit = true) :
      d :: front ++ more ≠ '$' :: rest := by
    intro h
    rw [(List.cons.inj h).1] at hd
    cases hd
  fun_induction scan pid text with
  | case1 => simp [not_marked_nil]
  | case2 rest ih =>
    obtain ⟨d, digits, hdigits, hd⟩ := ofNat_begins pid
    have hmarked : Marked ('$' :: '$' :: rest) := .inl ⟨[], rest, rfl⟩
    rw [hdigits]
    exact iff_of_false (inserted hd) fun h => h hmarked
  | case3 rest ih =>
    have hmarked : Marked (versionMark ++ rest) := .inr ⟨[], rest, rfl⟩
    rw [version_digits]
    exact iff_of_false (inserted rfl) fun h => h hmarked
  | case4 c rest hd hv ih =>
    have hpid : ¬ pidMark <+: c :: rest := by
      rintro ⟨others, ho⟩
      cases ho
      exact hd others rfl rfl
    have hversion : ¬ versionMark <+: c :: rest := by
      rintro ⟨others, ho⟩
      cases ho
      exact hv others rfl rfl
    simp only [marked_cons, hpid, hversion, List.cons.injEq, true_and, false_or, ih]

theorem prefix_before {mark front rest : Text} {c : Char} (hc : c ∉ mark)
    (h : mark <+: front ++ c :: rest) : mark <+: front := by
  rcases List.prefix_or_prefix_of_prefix h (List.prefix_append front (c :: rest))
    with hshort | ⟨more, rfl⟩
  · exact hshort
  · cases more with
    | nil => simp
    | cons d more =>
      rw [List.prefix_append_right_inj, List.cons_prefix_cons] at h
      exact absurd (by simp [h.1]) hc

theorem scan_before_slash (front rest : Text) :
    scan pid (front ++ '/' :: rest) = scan pid front ++ scan pid ('/' :: rest) := by
  fun_induction scan pid front with
  | case1 => rfl
  | case2 front ih =>
    rw [List.append_assoc, ← ih]
    rfl
  | case3 front ih =>
    rw [List.append_assoc, ← ih]
    rfl
  | case4 c front hd hv ih =>
    rw [List.cons_append, List.cons_append, ← ih]
    by_cases hc : c = '$'
    · subst hc
      apply scan_dollar
      · intro others ho
        cases front with
        | nil => cases ho
        | cons d front =>
          cases ho
          exact hd front rfl rfl
      · intro hp
        obtain ⟨others, ho⟩ := prefix_before (by decide) hp
        exact hv others rfl ho.symm
    · exact scan_keep pid _ hc

variable {pid}

theorem expand_home (home : Text) : expand (some home) pid ['~'] = scan pid home :=
  expand_scan pid _ _

theorem expand_below_home (home rest : Text) : expand (some home) pid ('~' :: '/' :: rest) =
    scan pid home ++ expand (some home) pid ('/' :: rest) := by
  rw [expand_scan, expand_scan]
  exact scan_before_slash pid home rest

theorem expand_cd (home : Option Text) : expand home pid Builtin.cd.name = Builtin.cd.name := by
  rw [expand_scan, atHome_settled (settled_of_first (by decide))]
  rfl

end Expansion

namespace Statement

variable {env : Environment} {s : ShellState} {e : Expression} {home : Text}

theorem cd_course {arguments : List Text} {path : Text}
    (h : e.Runs env s (Builtin.cd.name :: arguments)) (hl : env.Leads arguments path) :
    ((atom e).evaluate env s).course = s.entering path := by
  rw [← ShellState.runCommand_cd hl, ← Expression.evaluate_runs h]
  rfl

theorem cd_home_course (hh : env.home = some home) (h : e.Says [Builtin.cd.name, ['~']]) :
    ((atom e).evaluate env s).course =
      s.entering (Expansion.expand (some home) s.process.pid ['~']) := by
  have hruns := @Expression.Says.runs env e s _ h
  rw [List.map_cons, Expansion.expand_cd, hh] at hruns
  exact cd_course hruns (.inl rfl)

theorem bare_cd_course (hh : env.home = some home) (h : e.Says [Builtin.cd.name]) :
    ((atom e).evaluate env s).course = s.entering home := by
  have hruns := @Expression.Says.runs env e s _ h
  rw [List.map_cons, Expansion.expand_cd] at hruns
  exact cd_course hruns (.inr ⟨rfl, hh⟩)

end Statement

namespace Expansion

/-- The home directory stands in a word as it is exactly if there is no mark in
it; whatever is in it, the rest of the word is expanded by itself. So `cd ~`
goes where the expanded home directory leads and a bare `cd` to the home
directory itself, which is the same if there is no mark in it. -/
theorem home_verbatim_iff_unmarked (home : Text) :
    (∀ pid, expand (some home) pid ['~'] = home ↔ ¬ Marked home) ∧
    (∀ pid rest, expand (some home) pid ('~' :: '/' :: rest) =
      home ++ expand (some home) pid ('/' :: rest) ↔ ¬ Marked home) ∧
    (∀ pid rest, expand (some home) pid ('~' :: '/' :: rest) =
      expand (some home) pid ['~'] ++ expand (some home) pid ('/' :: rest)) ∧
    ∀ (env : Environment) (s : ShellState) (e e' : Expression), env.home = some home →
      e.Says [Builtin.cd.name, ['~']] → e'.Says [Builtin.cd.name] →
      ((Statement.atom e).evaluate env s).course =
        s.entering (expand (some home) s.process.pid ['~']) ∧
      ((Statement.atom e').evaluate env s).course = s.entering home ∧
      (¬ Marked home → ((Statement.atom e).evaluate env s).course =
        ((Statement.atom e').evaluate env s).course) := by
  refine ⟨fun pid => ?_, fun pid rest => ?_, fun pid rest => ?_, ?_⟩
  · rw [expand_home]
    exact scan_eq_self_iff pid home
  · rw [expand_below_home, List.append_cancel_right_eq]
    exact scan_eq_self_iff pid home
  · rw [expand_below_home, expand_home]
  · intro env s e e' hh he he'
    have hhome := Statement.cd_home_course (s := s) hh he
    have hbare := Statement.bare_cd_course (s := s) hh he'
    refine ⟨hhome, hbare, fun hm => ?_⟩
    rw [hhome, hbare, expand_home, (scan_eq_self_iff _ home).mpr hm]

/-- At home in `/bin`, a directory below it is named after the process 7. -/
theorem home_verbatim_iff_unmarked_bin : ∃ (env : Environment) (s : ShellState),
    env.home = some ['/', 'b', 'i', 'n'] ∧ ¬ Marked ['/', 'b', 'i', 'n'] ∧
    expand env.home 7 ['~', '/', '$', '$'] = ['/', 'b', 'i', 'n', '/', '7'] ∧
    ((Statement.atom (.typed Builtin.cd.name [['~']])).evaluate env s).course =
      ((Statement.atom (.typed Builtin.cd.name [])).evaluate env s).course ∧
    ((Statement.atom (.typed Builtin.cd.name [])).evaluate env s).outcome = .value .success := by
  obtain ⟨_, hbelow, _, hcourse⟩ := home_verbatim_iff_unmarked ['/', 'b', 'i', 'n']
  have hunmarked : ¬ Marked ['/', 'b', 'i', 'n'] := by
    rw [← scan_eq_self_iff 7]
    decide
  have hrest : expand (some ['/', 'b', 'i', 'n']) 7 ['/', '$', '$'] = ['/', '7'] := by
    decide +kernel
  refine ⟨⟨some ['/', 'b', 'i', 'n'], none, Image.run, false, ⟨[], false, none⟩⟩,
    ⟨Console.process 7 [], Console.world World.standardTree [], 0⟩, rfl, hunmarked, ?_, ?_, ?_⟩
  · exact ((hbelow 7 ['$', '$']).mpr hunmarked).trans (congrArg _ hrest)
  · exact (hcourse _ _ _ _ rfl (Expression.typed_says _ _)
      (Expression.typed_says _ _)).2.2 hunmarked
  · decide +kernel

def dollarDirectory : ShellState :=
  ⟨Console.process 7 [], Console.world (World.standardTree.put [['$', '$']] .directory) [], 0⟩

/-- At home in `/$$` the word `~` means `/7` to the process 7, so that `cd ~` finds
no directory where a bare `cd` does. -/
theorem home_searched_for_marks : ∃ env : Environment, env.home = some ['/', '$', '$'] ∧
    expand env.home 7 ['~'] = ['/', '7'] ∧
    expand env.home 7 ['~', '/', 'x'] = ['/', '7', '/', 'x'] ∧
    ((Statement.atom (.typed Builtin.cd.name [['~']])).evaluate env dollarDirectory).outcome =
      .value .failure ∧
    ((Statement.atom (.typed Builtin.cd.name [])).evaluate env
      dollarDirectory).state.process.directory = [['$', '$']] := by
  refine ⟨⟨some ['/', '$', '$'], none, Image.run, false, ⟨[], false, none⟩⟩, rfl, ?_, ?_, ?_, ?_⟩
  all_goals decide +kernel

end Expansion

end TinyShell
