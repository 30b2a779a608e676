import TinyShell.Proofs.Forks.Containment
import TinyShell.Proofs.Forks.Requests
import TinyShell.Proofs.Grammar.Acceptance
import TinyShell.Statement.Progress

/-!
# The shape of what is read

Tokens are all of a kind that is known, and where a scan fails, a character or the
input is the reason. The trees that are read have their numbers and their words
where the evaluation looks for them, so that it never finds a word in the place of
a descriptor.
-/

set_option autoImplicit false

namespace TinyShell

namespace Move

def Recognizes : Move → Prop
  | stop found | take found | close found => ∃ kind, found = some kind ∧ kind ≠ .invalid
  | skip _ | keep _ | refuse _ => True

theorem Recognizes.ite {p : Prop} [Decidable p] {a b : Move} (ha : a.Recognizes)
    (hb : b.Recognizes) : (if p then a else b).Recognizes := by
  split
  next => exact ha
  next => exact hb

end Move

namespace Scan

theorem onChar_recognizes (state : Scan) (c : Char) : (state.onChar c).Recognizes := by
  cases state <;> unfold onChar <;> try unfold onFirst
  all_goals
    repeat' apply Move.Recognizes.ite
    all_goals first | trivial | exact ⟨_, rfl, TokenKind.noConfusion⟩

theorem onEnd_recognizes {state : Scan} {found : Option TokenKind} (h : state.onEnd = .ok found) :
    ∃ kind, found = some kind ∧ kind ≠ .invalid := by
  cases state <;> cases h <;> exact ⟨_, rfl, TokenKind.noConfusion⟩

end Scan

namespace Scanner

theorem scan_recognized {start : Position} {text : Text} {state : Scan} {c : Cursor} {t : Token}
    {s : Scanner} (h : scan start text state c = (.ok t, s)) : t.kind ≠ .invalid := by
  fun_induction scan start text state c with
  | case1 => cases h
  | case2 =>
    unfold finish at h
    split at h
    next => cases h
    next hk =>
      cases h
      obtain ⟨kind, heq, hkind⟩ := Scan.onEnd_recognizes hk
      cases heq
      exact hkind
    next => cases h
  | case3 _ _ _ _ _ _ _ _ _ _ ih => exact ih h
  | case4 _ _ _ _ _ _ _ _ _ _ ih => exact ih h
  | case5 _ _ state _ x _ _ _ _ hm | case6 _ _ state _ x _ _ _ _ hm
  | case7 _ _ state _ x _ _ _ _ hm =>
    cases h
    have hknown := state.onChar_recognizes x
    rw [hm] at hknown
    obtain ⟨kind, heq, hkind⟩ := hknown
    cases heq
    exact hkind
  | case8 => cases h
  | case9 _ _ _ _ _ _ _ hk | case10 _ _ _ _ _ _ _ hk | case11 _ _ _ _ _ _ _ hk =>
    simp [Scan.onChar_ne_none] at hk

theorem next_recognized {s s' : Scanner} {t : Token} (h : s.next = (.ok t, s')) :
    t.kind ≠ .invalid := by
  unfold next at h
  split at h
  next =>
    cases h
    exact TokenKind.noConfusion
  next => exact scan_recognized h

end Scanner

def Failure.Lexical (failure : Failure) : Prop :=
  failure.endsInput = true ∨ ∃ p found expected, failure = .character p found expected

theorem Failure.Lexical.ne_grammar {failure : Failure} (h : failure.Lexical) (p : Position)
    (kind : TokenKind) (expected : Text) : failure ≠ .grammar p kind expected := by
  rintro rfl
  rcases h with h | ⟨_, _, _, h⟩ <;> cases h

theorem Failure.Lexical.ne_argument {failure : Failure} (h : failure.Lexical)
    (complaint : Complaint) : failure ≠ .argument complaint := by
  rintro rfl
  rcases h with h | ⟨_, _, _, h⟩ <;> cases h

theorem Failure.lexical_of_character {failure : Failure} (h : failure.endsInput = false →
    ∃ p found expected, failure = .character p found expected) : failure.Lexical := by
  cases he : failure.endsInput with
  | true => exact .inl he
  | false => exact .inr (h he)

namespace Expression

def isSingle : Expression → Bool
  | command i | string i => i.arguments.isEmpty
  | value _ => false

def isRunnable : Expression → Bool
  | command _ => true
  | string i => i.arguments.isEmpty
  | value _ => false

def isAtLeast (least : Int) : Expression → Bool
  | value n => least ≤ n
  | command _ | string _ => false

theorem word_single (t : Token) : (word t).isSingle = true := by
  unfold word
  split <;> rfl

theorem word_runnable (t : Token) : (word t).isRunnable = true := by
  unfold word
  split <;> rfl

theorem value_of_isAtLeast {least : Int} {e : Expression} (h : e.isAtLeast least = true) :
    ∃ n, e = .value n := by
  cases e with
  | value n => exact ⟨n, rfl⟩
  | command | string => cases h

end Expression

namespace Redirection

/-- A target is one word. The descriptor of a file is a number or left out, and
those of a merge are numbers, or the mark of one that was left out. -/
def isShaped : Redirection → Bool
  | overwrite fd target | append fd target => fd.all (Expression.isAtLeast 0) && target.isSingle
  | mergeOutput target | mergeAppend target | input target => target.isSingle
  | mergeStream source destination => source.isAtLeast (-1) && destination.isAtLeast (-1)

theorem operands_value {r : Redirection} (h : r.isShaped = true) :
    ∀ e ∈ r.operands, ∃ n, e = .value n := by
  intro e he
  cases r with
  | overwrite fd target | append fd target =>
    have hfd := ((Bool.and_eq_true _ _).mp h).1
    rw [Option.mem_toList.mp he] at hfd
    exact Expression.value_of_isAtLeast hfd
  | mergeOutput | mergeAppend | input => cases he
  | mergeStream source destination =>
    obtain ⟨hs, hd⟩ := (Bool.and_eq_true _ _).mp h
    rcases List.mem_cons.mp he with rfl | he
    · exact Expression.value_of_isAtLeast hs
    · rw [List.mem_singleton.mp he]
      exact Expression.value_of_isAtLeast hd

end Redirection

namespace Wiring

theorem descriptor_ne_notDescriptor {standard : Int} {fd : Option Expression} {operand : Text}
    (h : ∀ e ∈ fd, ∃ n, e = .value n) :
    descriptor standard fd ≠ .error (.notDescriptor operand) := by
  intro hd
  cases fd with
  | none => cases hd
  | some e =>
    obtain ⟨n, rfl⟩ := h e rfl
    simp only [descriptor] at hd
    split at hd
    next => cases hd
    next => split at hd <;> cases hd

theorem ofRedirection_ne_notDescriptor {r : Redirection} {operand : Text}
    (h : ∀ e ∈ r.operands, ∃ n, e = .value n) :
    ofRedirection r ≠ .error (.notDescriptor operand) := by
  intro hw
  cases r with
  | overwrite fd target | append fd target =>
    simp only [ofRedirection, output] at hw
    split at hw <;> cases hw
    next hd =>
      exact descriptor_ne_notDescriptor (fun e he => h e (Option.mem_toList.mpr he)) hd
  | mergeOutput | mergeAppend | input => cases hw
  | mergeStream source destination =>
    simp only [ofRedirection] at hw
    split at hw
    next hd =>
      cases hw
      refine descriptor_ne_notDescriptor (fun e he => h e ?_) hd
      simp_all [Redirection.operands]
    next =>
      split at hw <;> cases hw
      next hd =>
        refine descriptor_ne_notDescriptor (fun e he => h e ?_) hd
        simp_all [Redirection.operands]

end Wiring

namespace Statement

def isShaped : Statement → Bool
  | sequence left right | and left right | or left right | pipeline left right =>
    left.isShaped && right.isShaped
  | closed _ => false
  | not inner => inner.isShaped
  | redirect r left => r.isShaped && left.isShaped
  | bare r => r.isShaped
  | atom e => e.isRunnable

def isShapedRoot : Statement → Bool
  | sequence left right => left.isShaped && right.isShapedRoot
  | closed left => left.isShaped
  | t => t.isShaped

def parts : Statement → List Statement
  | sequence left right => sequence left right :: (left.parts ++ right.parts)
  | closed left => closed left :: left.parts
  | and left right => and left right :: (left.parts ++ right.parts)
  | or left right => or left right :: (left.parts ++ right.parts)
  | not inner => not inner :: inner.parts
  | pipeline left right => pipeline left right :: (left.parts ++ right.parts)
  | redirect r left => redirect r left :: left.parts
  | bare r => [bare r]
  | atom e => [atom e]

def redirections : Statement → List Redirection
  | sequence left right | and left right | or left right | pipeline left right =>
    left.redirections ++ right.redirections
  | closed inner | not inner => inner.redirections
  | redirect r left => r :: left.redirections
  | bare r => [r]
  | atom _ => []

variable {host : Host} {t u left right : Statement} {s s' : ShellState}

theorem isShapedRoot_of_isShaped (h : t.isShaped = true) : t.isShapedRoot = true := by
  induction t with
  | sequence left right _ ih =>
    simp only [isShaped, Bool.and_eq_true] at h
    simp only [isShapedRoot, Bool.and_eq_true]
    exact ⟨h.1, ih h.2⟩
  | closed => cases h
  | and | or | not | pipeline | redirect | bare | atom => exact h

theorem redirections_shaped (h : t.isShaped = true) : ∀ r ∈ t.redirections, r.isShaped = true := by
  induction t with
  | sequence left right ihl ihr | and left right ihl ihr | or left right ihl ihr
  | pipeline left right ihl ihr =>
    obtain ⟨hl, hr⟩ := (Bool.and_eq_true _ _).mp h
    intro r hmem
    rcases List.mem_append.mp hmem with hmem | hmem
    · exact ihl hl r hmem
    · exact ihr hr r hmem
  | closed => cases h
  | not inner ih => exact ih h
  | redirect r left ih =>
    obtain ⟨hr, hl⟩ := (Bool.and_eq_true _ _).mp h
    intro r' hmem
    rcases List.mem_cons.mp hmem with rfl | hmem
    · exact hr
    · exact ih hl r' hmem
  | bare r =>
    intro r' hmem
    rw [List.mem_singleton.mp hmem]
    exact h
  | atom e =>
    intro r hmem
    cases hmem

theorem redirections_root (h : t.isShapedRoot = true) :
    ∀ r ∈ t.redirections, r.isShaped = true := by
  induction t with
  | sequence left right _ ih =>
    obtain ⟨hl, hr⟩ := (Bool.and_eq_true _ _).mp h
    intro r hmem
    rcases List.mem_append.mp hmem with hmem | hmem
    · exact redirections_shaped hl r hmem
    · exact ih hr r hmem
  | closed left => exact redirections_shaped (t := left) h
  | and | or | not | pipeline | redirect | bare | atom => exact redirections_shaped h

theorem redirections_part (hu : u ∈ t.parts) : ∀ r ∈ u.redirections, r ∈ t.redirections := by
  induction t with
  | sequence left right ihl ihr | and left right ihl ihr | or left right ihl ihr
  | pipeline left right ihl ihr =>
    intro r hr
    rcases List.mem_cons.mp hu with rfl | hu
    · exact hr
    rcases List.mem_append.mp hu with hu | hu
    · exact List.mem_append_left _ (ihl hu r hr)
    · exact List.mem_append_right _ (ihr hu r hr)
  | closed inner ih | not inner ih =>
    intro r hr
    rcases List.mem_cons.mp hu with rfl | hu
    · exact hr
    · exact ih hu r hr
  | redirect r' left ih =>
    intro r hr
    rcases List.mem_cons.mp hu with rfl | hu
    · exact hr
    · exact List.mem_cons_of_mem _ (ih hu r hr)
  | bare | atom =>
    intro r hr
    rw [← List.mem_singleton.mp hu]
    exact hr

theorem part_first (hf : t.first? = some left) :
    ∀ r ∈ left.redirections, r ∈ t.redirections := by
  intro r hr
  cases t <;> cases hf <;> simp [redirections, hr]

theorem part_next {r : Result} (hn : t.next? r = some right) :
    ∀ r ∈ right.redirections, r ∈ t.redirections := by
  intro r hr
  cases t <;> simp only [next?] at hn <;> grind [redirections]

theorem redirections_reached (hr : t.Reaches host s u s') :
    ∀ r ∈ u.redirections, r ∈ t.redirections := by
  induction hr with
  | here => exact fun _ h => h
  | first hf _ ih => exact fun r h => part_first hf r (ih r h)
  | next _ _ hn _ ih => exact fun r h => part_next hn r (ih r h)

end Statement

def Outcome.BlamesOperand (o : Outcome) : Prop :=
  ∃ operand, o = .failed (.argument (.notDescriptor operand))

theorem Outcome.not_blames_value (r : Result) : ¬ (value r).BlamesOperand := by
  rintro ⟨_, h⟩
  cases h

theorem Failure.IsRefusal.not_blames {failure : Failure} (h : failure.IsRefusal) :
    ¬ (Outcome.failed failure).BlamesOperand := by
  obtain ⟨call, reason, rfl⟩ := h
  rintro ⟨_, h⟩
  cases h

theorem Guard.wait_not_blames {g : Guard} {pid : Nat} {failure : Failure}
    (h : (g.wait pid).1 = .error failure) : ¬ (Outcome.failed failure).BlamesOperand := by
  rintro ⟨operand, ho⟩
  cases ho
  unfold wait reap at h
  repeat' split at h
  all_goals cases h

namespace ShellState

variable {host : Host} {s : ShellState}

theorem await_not_blames {env : Environment} {g : Guard} {younger : List Guard}
    {next : Nat → ShellState → Outcome × ShellState}
    (hn : ∀ n, ¬ (next n s).1.BlamesOperand) :
    ¬ (s.await env g younger next).1.BlamesOperand := by
  simp only [await]
  split
  next hw => exact Guard.wait_not_blames hw
  next n _ => exact hn n

theorem makePipe_not_blames {failure : Failure} {m : ShellState}
    (h : s.makePipe host = (.error failure, m)) : ¬ (Outcome.failed failure).BlamesOperand := by
  have hpiped := s.makePipe_piped host
  rw [h] at hpiped
  cases hpiped with
  | refused hf | closed hf => exact hf.not_blames

theorem spawn_not_blames {work : ShellState → Ending × World} {failure : Failure} {m : ShellState}
    (h : s.spawn host work = (.error failure, m)) :
    ¬ (Outcome.failed failure).BlamesOperand := by
  have hspawned := s.spawn_spawned host work
  rw [h] at hspawned
  cases hspawned with
  | refused hf => exact hf.not_blames

theorem runPipeline_not_blames (left right : ShellState → Outcome × ShellState) :
    ¬ (s.runPipeline host left right).1.BlamesOperand := by
  have h := @runPipeline_course left right host s
  generalize s.runPipeline host left right = ended at h
  cases h with
  | unpiped hp => exact makePipe_not_blames hp
  | unforked _ hw => exact spawn_not_blames hw
  | halfForked _ _ hr => exact spawn_not_blames hr
  | forked =>
    exact await_not_blames fun _ => await_not_blames fun _ => Outcome.not_blames_value _

theorem runRedirected_not_blames {r : Redirection} (h : ∀ e ∈ r.operands, ∃ n, e = .value n)
    (body : ShellState → Outcome × ShellState) :
    ¬ (s.runRedirected host r body).1.BlamesOperand := by
  have hcourse := @runRedirected_course body host s r
  generalize s.runRedirected host r body = ended at hcourse
  cases hcourse with
  | unwired hw =>
    rintro ⟨operand, ho⟩
    cases ho
    exact Wiring.ofRedirection_ne_notDescriptor h hw
  | unverified => exact Outcome.not_blames_value _
  | unforked _ _ hf => exact spawn_not_blames hf
  | forked => exact await_not_blames fun _ => Outcome.not_blames_value _

theorem settle_not_blames {env : Environment} (o : Outcome) :
    ¬ (s.settle env o).1.BlamesOperand := by
  unfold settle
  split
  next => exact Outcome.not_blames_value _
  next hn =>
    rintro ⟨operand, ho⟩
    exact hn _ ho

theorem invoke_not_blames (i : Invocation) : ¬ (s.invoke host i).outcome.BlamesOperand := by
  unfold invoke
  split
  next => exact Outcome.not_blames_value _
  next =>
    simp only [runCommand]
    split
    next => exact Outcome.not_blames_value _
    next => exact settle_not_blames _

end ShellState

namespace Statement

variable {host : Host} {t : Statement} {s : ShellState}

/-- Nothing that a statement comes to, in its process, complains of a word in
the place of a descriptor. -/
theorem evaluate_not_blames (h : ∀ r ∈ t.redirections, r.isShaped = true) :
    ¬ (t.evaluate host s).outcome.BlamesOperand := by
  rintro ⟨operand, ho⟩
  obtain ⟨u, s', hr, hleaf, hu⟩ := abrupt_reached (by rw [ho]; rfl)
  have hblames : (u.evaluate host s').outcome.BlamesOperand := ⟨operand, hu.trans ho⟩
  have hvalues {r : Redirection} (hm : r ∈ u.redirections) :
      ∀ e ∈ (r.expand host.toEnvironment s').operands, ∃ n, e = .value n := by
    rw [Redirection.operands_expand]
    exact Redirection.operands_value (h r (redirections_reached hr r hm))
  cases u with
  | sequence | closed | and | or | not => cases hleaf
  | pipeline left right => exact ShellState.runPipeline_not_blames _ _ hblames
  | redirect r left =>
    exact ShellState.runRedirected_not_blames (hvalues (by simp [redirections])) _ hblames
  | bare r =>
    exact ShellState.runRedirected_not_blames (hvalues (by simp [redirections])) _ hblames
  | atom e =>
    cases e with
    | command i | string i => exact ShellState.invoke_not_blames i hblames
    | value n => exact Outcome.not_blames_value n hblames

end Statement

namespace Grammar

def shapedAs : Phrase → Statement → Bool
  | .statement => Statement.isShapedRoot
  | _ => Statement.isShaped

theorem given_isAtLeast (fd : Option Nat) : (given fd).isAtLeast (-1) = true := by
  cases fd with
  | none => rfl
  | some n =>
    simp only [given, Expression.isAtLeast, decide_eq_true_eq]
    omega

theorem opens_shaped {op : Token} {make : Expression → Redirection} (h : Opens op make)
    (name : Token) : (make (.word name)).isShaped = true := by
  have hname := Expression.word_single name
  cases h with
  | @overwrite fd | @append fd =>
    cases fd <;> simp [Redirection.isShaped, Expression.isAtLeast, hname]
  | mergeOutput | mergeAppend | input => exact hname

theorem redirects_shaped {ts : List Token} {r : Redirection} (h : Redirects ts r) :
    r.isShaped = true := by
  cases h with
  | file ho => exact opens_shaped ho _
  | @merge _ source destination =>
    simp [Redirection.isShaped, given_isAtLeast]

theorem derives_shaped {p : Phrase} {ts : List Token} {t : Statement} (h : Derives p ts t) :
    shapedAs p t = true := by
  induction h with
  | word => exact Expression.word_runnable _
  | words => rfl
  | not _ _ ih | group _ _ _ ih | plain _ ih | single _ ih | alone _ ih | inner _ _ ih
  | innerClosed _ _ _ _ ih | closed _ _ _ ih => exact ih
  | bare hr => exact redirects_shaped hr
  | redirect _ hr ih => exact (Bool.and_eq_true _ _).mpr ⟨redirects_shaped hr, ih⟩
  | pipe _ _ _ _ ihl ihr | and _ _ _ _ ihl ihr | or _ _ _ _ ihl ihr
  | innerSequence _ _ _ _ _ ihl ihr | sequence _ _ _ ihl ihr =>
    exact (Bool.and_eq_true _ _).mpr ⟨ihl, ihr⟩
  | ended _ _ ih => exact Statement.isShapedRoot_of_isShaped ih

end Grammar

namespace TokenQueue

theorem read_shaped {q q' : TokenQueue} {t : Statement} (h : q.read = (.ok (some t), q')) :
    t.isShapedRoot = true := by
  obtain ⟨w, hd⟩ := Grammar.statement_of_read h
  exact Grammar.derives_shaped hd

end TokenQueue

end TinyShell
