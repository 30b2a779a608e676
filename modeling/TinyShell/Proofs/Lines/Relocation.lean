import TinyShell.Statement.Reading

/-!
# Positions under other names

The position of a token is carried along and shown, but nothing is decided by
it. Renaming the positions of all tokens therefore renames the positions in
what is read from them, and changes nothing else.
-/

set_option autoImplicit false

namespace TinyShell

def Position.down (n : Nat) (p : Position) : Position := { p with line := p.line + n }

section

variable (f : Position → Position)

def Token.relocate (t : Token) : Token := { t with position := f t.position }

def Invocation.relocate (i : Invocation) : Invocation :=
  { i with head := i.head.relocate f, arguments := i.arguments.map (Token.relocate f) }

def Expression.relocate : Expression → Expression
  | .command i => .command (i.relocate f)
  | .string i => .string (i.relocate f)
  | .value n => .value n

def Redirection.relocate : Redirection → Redirection
  | .overwrite fd target => .overwrite (fd.map (Expression.relocate f)) (target.relocate f)
  | .append fd target => .append (fd.map (Expression.relocate f)) (target.relocate f)
  | .mergeOutput target => .mergeOutput (target.relocate f)
  | .mergeAppend target => .mergeAppend (target.relocate f)
  | .mergeStream source destination =>
    .mergeStream (source.relocate f) (destination.relocate f)
  | .input target => .input (target.relocate f)

def Statement.relocate : Statement → Statement
  | .sequence left right => .sequence left.relocate right.relocate
  | .closed left => .closed left.relocate
  | .and left right => .and left.relocate right.relocate
  | .or left right => .or left.relocate right.relocate
  | .not inner => .not inner.relocate
  | .pipeline left right => .pipeline left.relocate right.relocate
  | .redirect r left => .redirect (r.relocate f) left.relocate
  | .bare r => .bare (r.relocate f)
  | .atom e => .atom (e.relocate f)

def Failure.relocate : Failure → Failure
  | .character p found expected => .character (f p) found expected
  | .grammar p found expected => .grammar (f p) found expected
  | failure => failure

def relocated {α : Type} (g : α → α) : Except Failure α → Except Failure α
  | .ok a => .ok (g a)
  | .error failure => .error (failure.relocate f)

def Level.relocate (level : Level) : Level where
  before := level.before.map (Statement.relocate f)
  joined := level.joined.map fun (c, s) => (c, s.relocate f)
  piped := level.piped.map (Statement.relocate f)
  negations := level.negations

def Stage.relocate : Stage → Stage
  | .chain spread => .chain spread
  | .operand => .operand
  | .words head latest => .words (head.relocate f) (latest.map (Token.relocate f))
  | .target arrow left => .target arrow (left.map (Statement.relocate f))
  | .follow s => .follow (s.relocate f)
  | .separated s => .separated (s.relocate f)
  | .groupSeparated s => .groupSeparated (s.relocate f)

def Reader.relocate : Reader → Reader
  | .idle => .idle
  | .inside stage level outer =>
    .inside (stage.relocate f) (level.relocate f) (outer.map (Level.relocate f))

def Verdict.relocate : Verdict → Verdict
  | .shift reader => .shift (reader.relocate f)
  | .accept statement => .accept (statement.map (Statement.relocate f))
  | .reject expected taken => .reject expected taken

end

section Identity

theorem Token.relocate_id (t : Token) : t.relocate id = t := rfl

theorem Expression.relocate_id (e : Expression) : e.relocate id = e := by
  have tokens (ts : List Token) : ts.map (Token.relocate id) = ts := List.map_id ts
  cases e <;> simp [Expression.relocate, Invocation.relocate, Token.relocate_id, tokens]

theorem Redirection.relocate_id (r : Redirection) : r.relocate id = r := by
  have given (fd : Option Expression) : fd.map (Expression.relocate id) = fd := by
    cases fd <;> simp [Expression.relocate_id]
  cases r <;> simp [Redirection.relocate, Expression.relocate_id, given]

theorem Statement.relocate_id (s : Statement) : s.relocate id = s := by
  induction s <;>
    simp_all [Statement.relocate, Redirection.relocate_id, Expression.relocate_id]

theorem Failure.relocate_id (failure : Failure) : failure.relocate id = failure := by
  cases failure <;> rfl

theorem relocated_id {α : Type} {g : α → α} (hg : ∀ a, g a = a) (r : Except Failure α) :
    relocated id g r = r := by
  cases r with
  | ok a => rw [relocated, hg]
  | error failure => rw [relocated, Failure.relocate_id]

end Identity

section Naturality

variable (f : Position → Position)

@[simp] theorem Token.relocate_kind (t : Token) : (t.relocate f).kind = t.kind := rfl

@[simp] theorem Token.relocate_text (t : Token) : (t.relocate f).text = t.text := rfl

theorem Failure.endsInput_relocate (failure : Failure) :
    (failure.relocate f).endsInput = failure.endsInput := by
  cases failure <;> rfl

theorem Expression.word_relocate (t : Token) :
    word (t.relocate f) = (word t).relocate f := by
  unfold word
  by_cases h : t.kind = .string <;> simp [h, relocate, Invocation.relocate]

theorem Expression.ofWords_relocate (head : Token) (latest : List Token) :
    ofWords (head.relocate f) (latest.map (Token.relocate f)) =
      (ofWords head latest).relocate f := by
  unfold ofWords
  cases latest with
  | nil => exact word_relocate f head
  | cons t latest => simp [relocate, Invocation.relocate]

theorem Arrow.onto_relocate (target : Expression) (arrow : Arrow) :
    arrow.onto (target.relocate f) = (arrow.onto target).relocate f := by
  have given (fd : Option Nat) :
      (fd.map Arrow.value).map (Expression.relocate f) = fd.map Arrow.value := by
    cases fd <;> rfl
  cases arrow <;> simp only [onto, Redirection.relocate, given]

theorem Redirection.around_relocate (r : Redirection) (left : Option Statement) :
    (r.relocate f).around (left.map (Statement.relocate f)) = (r.around left).relocate f := by
  cases left <;> rfl

namespace Level

variable (level : Level) (s : Statement)

theorem relocate_negate :
    (level.relocate f).negate (s.relocate f) = (level.negate s).relocate f := by
  have counted (n : Nat) : Nat.repeat Statement.not n (s.relocate f) =
      (Nat.repeat Statement.not n s).relocate f := by
    induction n with
    | zero => rfl
    | succ n ih => rw [Nat.repeat, ih]; rfl
  exact counted level.negations

theorem relocate_closePipeline :
    (level.relocate f).closePipeline (s.relocate f) = (level.closePipeline s).relocate f := by
  obtain ⟨before, joined, piped, negations⟩ := level
  simp only [closePipeline, relocate]
  induction piped generalizing s with
  | nil => rfl
  | cons left piped ih => exact ih (.pipeline left s)

theorem relocate_closeLogical :
    (level.relocate f).closeLogical (s.relocate f) = (level.closeLogical s).relocate f := by
  obtain ⟨before, joined, piped, negations⟩ := level
  have pipeline := relocate_closePipeline f ⟨before, joined, piped, negations⟩ s
  cases joined with
  | none => exact pipeline
  | some pair =>
    obtain ⟨connective, left⟩ := pair
    simp only [closeLogical, relocate, Option.map_some] at pipeline ⊢
    rw [pipeline]
    cases connective <;> rfl

theorem relocate_close :
    (level.relocate f).close (s.relocate f) = (level.close s).relocate f := by
  obtain ⟨before, joined, piped, negations⟩ := level
  simp only [close, relocate]
  induction before generalizing s with
  | nil => rfl
  | cons left before ih => exact ih (.sequence left s)

theorem relocate_separate :
    (level.relocate f).separate (s.relocate f) = (level.separate s).relocate f := rfl

end Level

namespace Reader

variable (level : Level) (outer : List Level) (s : Statement) (t : Token)

theorem onOperand_relocate :
    onOperand (level.relocate f) (outer.map (Level.relocate f)) (t.relocate f) =
      (onOperand level outer t).relocate f := by
  simp only [onOperand, Token.relocate_kind]
  split <;> rfl

theorem onRedirection_relocate (left : Option Statement) :
    onRedirection (left.map (Statement.relocate f)) (level.relocate f)
        (outer.map (Level.relocate f)) (t.relocate f) =
      (onRedirection left level outer t).map (Verdict.relocate f) := by
  simp only [onRedirection, Token.relocate_kind, Token.relocate_text]
  split
  next => split <;> rfl
  next => split <;> rfl
  next => rfl
  next => rfl
  next => rfl
  next =>
    split
    next => rfl
    next source destination _ =>
      have merged := Redirection.around_relocate f (Redirection.mergeOf source destination) left
      have same : (Redirection.mergeOf source destination).relocate f =
          Redirection.mergeOf source destination := rfl
      rw [same] at merged
      simp only [merged]
      rfl
  next => rfl

theorem onChain_relocate :
    onChain (level.relocate f) (outer.map (Level.relocate f)) (t.relocate f) =
      (onChain level outer t).relocate f := by
  have redirection := onRedirection_relocate f level outer t none
  simp only [Option.map_none] at redirection
  rw [onChain, onChain, redirection, onOperand_relocate]
  cases onRedirection none level outer t <;> rfl

theorem closeGroup_relocate :
    closeGroup (s.relocate f) (level.relocate f) (outer.map (Level.relocate f)) =
      (closeGroup s level outer).relocate f := by
  have negated := Level.relocate_negate f level s
  simp only [closeGroup, negated]
  rfl

theorem onScope_relocate :
    onScope (s.relocate f) (level.relocate f) (outer.map (Level.relocate f)) (t.relocate f) =
      (onScope s level outer t).relocate f := by
  have closed := Level.relocate_close f level s
  cases outer with
  | nil =>
    simp only [onScope, List.map_nil, Token.relocate_kind, closed]
    split <;> rfl
  | cons parent others =>
    simp only [onScope, List.map_cons, Token.relocate_kind, closed]
    split
    next => exact closeGroup_relocate f parent others _
    all_goals rfl

theorem onFollow_relocate :
    onFollow (s.relocate f) (level.relocate f) (outer.map (Level.relocate f)) (t.relocate f) =
      (onFollow s level outer t).relocate f := by
  have redirection := onRedirection_relocate f level outer t (some s)
  have closed := Level.relocate_closeLogical f level s
  simp only [Option.map_some] at redirection
  simp only [onFollow, redirection, Token.relocate_kind, closed]
  cases onRedirection (some s) level outer t with
  | some verdict => rfl
  | none =>
    simp only [Option.map_none]
    by_cases hp : t.kind = .pipe
    · rw [if_pos hp, if_pos hp]
      rfl
    · rw [if_neg hp, if_neg hp]
      split
      next => rfl
      next => exact onScope_relocate f level outer _ t

theorem onStage_relocate (stage : Stage) :
    onStage (stage.relocate f) (level.relocate f) (outer.map (Level.relocate f))
        (t.relocate f) = (onStage stage level outer t).relocate f := by
  cases stage with
  | chain spread =>
    by_cases h : (spread && t.kind == .newline) = true
    · simp only [onStage, Stage.relocate, Token.relocate_kind, h, if_true]
      rfl
    · simp only [onStage, Stage.relocate, Token.relocate_kind, h]
      exact onChain_relocate f level outer t
  | operand => exact onOperand_relocate f level outer t
  | words head latest =>
    by_cases h : t.kind.isWord = true
    · simp only [onStage, Stage.relocate, Token.relocate_kind, h, if_true]
      rfl
    · have words : Statement.atom (Expression.ofWords (head.relocate f)
          (latest.map (Token.relocate f))) =
          (Statement.atom (Expression.ofWords head latest)).relocate f := by
        rw [Expression.ofWords_relocate, Statement.relocate]
      simp only [onStage, Stage.relocate, Token.relocate_kind, h, words,
        Level.relocate_negate]
      exact onFollow_relocate f { level with negations := 0 } outer _ t
  | target arrow left =>
    by_cases h : t.kind.isWord = true
    · simp only [onStage, Stage.relocate, Token.relocate_kind, h, if_true,
        Expression.word_relocate, Arrow.onto_relocate, Redirection.around_relocate]
      rfl
    · simp only [onStage, Stage.relocate, Token.relocate_kind, h]
      rfl
  | follow s => exact onFollow_relocate f level outer s t
  | separated s =>
    have closed := Level.relocate_close f level (.closed s)
    simp only [onStage, Stage.relocate, Token.relocate_kind]
    split
    next => exact congrArg (fun s => Verdict.accept (some s)) closed
    next => exact congrArg (fun s => Verdict.accept (some s)) closed
    next => exact onChain_relocate f (level.separate s) outer t
  | groupSeparated s =>
    have chain := onChain_relocate f (level.separate s) outer t
    rw [← Level.relocate_separate] at chain
    have rest (level : Level) (s : Statement) (outer : List Level) {u : Token}
        (hn : u.kind ≠ .newline) (hr : u.kind ≠ .rightParen) :
        onStage (.groupSeparated s) level outer u = onChain (level.separate s) outer u := by
      cases outer <;> cases hk : u.kind <;> simp_all [onStage]
    by_cases hn : t.kind = .newline
    · simp only [onStage, Stage.relocate, Token.relocate_kind, hn]
      rfl
    by_cases hr : t.kind = .rightParen
    · cases outer with
      | nil => simpa [onStage, Stage.relocate, hr] using chain
      | cons parent others =>
        have closed := closeGroup_relocate f parent others (level.close s)
        rw [← Level.relocate_close] at closed
        simpa [onStage, Stage.relocate, hr] using closed
    · rw [Stage.relocate, rest _ _ _ (by simpa using hn) (by simpa using hr), rest _ _ _ hn hr]
      exact chain

theorem feed_relocate (reader : Reader) :
    (reader.relocate f).feed (t.relocate f) = (reader.feed t).relocate f := by
  cases reader with
  | idle =>
    simp only [feed, relocate, Token.relocate_kind]
    split
    next => rfl
    next => rfl
    next => rfl
    next => exact onChain_relocate f Level.empty [] t
  | inside stage level outer => exact onStage_relocate f level outer t stage

end Reader

end Naturality

end TinyShell
