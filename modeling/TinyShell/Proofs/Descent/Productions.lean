import TinyShell.Statement.Reading

/-!
# Reading by descent

The reader of statements once more, as a program that asks the queue for one
thing after the other: a production reads the phrase it is named for, looks at
a token before it takes it, and leaves the phrases inside its own to other
productions. What matters here is the order in which the queue is called, up to
the failure that ends a reading.
-/

set_option autoImplicit false

namespace TinyShell

inductive TokenQueue.Call
  | peek
  | next
  | putBack (t : Token)
  | clear
deriving DecidableEq, Repr

namespace Descent

inductive Production : Type → Type
  | start : Production (Option Statement)
  | statement : Production Statement
  | inner : Production Statement
  | innerEnd (left : Statement) : Production Statement
  | innerRest (left : Statement) : Production Statement
  | logical : Production Statement
  | logicalRest (left : Statement) : Production Statement
  | pipeline : Production Statement
  | chain : Production Statement
  | chainRest (left : Option Statement) : Production Statement
  | redirection (left : Option Statement) : Production Statement
  | operand : Production Statement
  | words (head : Token) (latest : List Token) : Production Statement
  | spread (phrase : Production Statement) : Production Statement

/-- What a production can only come to when it is asked for in a wrong place, or
was left something else by the phrases inside its own. -/
inductive Misuse
  | openGroup
  | otherOperator
  | noOperand
deriving DecidableEq, Repr

inductive Program (α : Type) : Type 1
  | done (result : α)
  | fail (failure : Failure)
  | misuse (arm : Misuse) (failure : Failure)
  | peek (rest : Token → Program α)
  | next (rest : Token → Program α)
  | putBack (t : Token) (rest : Program α)
  | read {β : Type} (phrase : Production β) (rest : β → Program α)

namespace Program

def unexpected {α : Type} (t : Token) (expected : Text) : Program α :=
  .fail (.grammar t.position t.kind expected)

def mistaken {α : Type} (arm : Misuse) (t : Token) (expected : Text) : Program α :=
  .misuse arm (.grammar t.position t.kind expected)

def target {α : Type} (rest : Expression → Program α) : Program α :=
  .next fun t =>
    if t.kind.isWord then rest (.word t) else unexpected t Reader.expectFile

def redirected (left : Option Statement) (arrow : Arrow) : Program Statement :=
  target fun e => .done ((arrow.onto e).around left)

end Program

open Descent.Program in
def Production.program : {α : Type} → Production α → Program α
  | _, start => .peek fun t =>
    match t.kind with
    | .newline | .semicolon => .next fun _ => .read start .done
    | .endOfInput => .next fun _ => .done none
    | _ => .read statement fun s => .done (some s)
  | _, statement => .read logical fun left => .next fun t =>
    match t.kind with
    | .newline | .endOfInput => .done left
    | .semicolon => .peek fun u =>
      match u.kind with
      | .newline | .endOfInput => .next fun _ => .done (.closed left)
      | _ => .read statement fun right => .done (.sequence left right)
    | _ => unexpected t Reader.expectSeparator
  | _, inner => .read (spread logical) fun left => .read (innerEnd left) .done
  | _, innerEnd left => .peek fun t =>
    match t.kind with
    | .rightParen => .done left
    | .semicolon | .newline => .next fun _ => .read (spread (innerRest left)) .done
    | _ => unexpected t Reader.expectParen
  | _, innerRest left => .peek fun t =>
    match t.kind with
    | .rightParen => .done left
    | _ => .read inner fun right => .done (.sequence left right)
  | _, logical => .read pipeline fun left => .read (logicalRest left) .done
  | _, logicalRest left => .peek fun t =>
    match Connective.ofKind? t.kind with
    | some connective => .next fun _ => .read (spread pipeline) fun right =>
      .read (logicalRest (connective.join left right)) .done
    | none => .done left
  | _, pipeline => .read chain fun left => .peek fun t =>
    match t.kind with
    | .pipe => .next fun _ => .read (spread pipeline) fun right => .done (.pipeline left right)
    | _ => .done left
  | _, chain => .peek fun t =>
    if t.kind.isRedirection then .read (chainRest none) .done
    else .read operand fun left => .read (chainRest (some left)) .done
  | _, chainRest left => .peek fun t =>
    if t.kind.isRedirection then
      .read (redirection left) fun s => .read (chainRest (some s)) .done
    else
      match left with
      | some s => .done s
      | none =>
        .misuse .noOperand (.argument (.other "redirection chain ended without an operand"))
  | _, redirection left => .next fun t =>
    match t.kind with
    | .overwrite | .append =>
      match Operator.output? t.text with
      | none => unexpected t Reader.expectOperator
      | some (fd, false) => redirected left (.overwrite fd)
      | some (fd, true) => redirected left (.append fd)
    | .mergeOutput => redirected left .mergeOutput
    | .mergeAppend => redirected left .mergeAppend
    | .input => redirected left .input
    | .mergeStream =>
      match Operator.merge? t.text with
      | none => unexpected t Reader.expectOperator
      | some (source, destination) =>
        .done ((Redirection.mergeOf source destination).around left)
    | _ => mistaken .otherOperator t Reader.expectOperator
  | _, operand => .next fun t =>
    match t.kind with
    | .command | .string => .putBack t (.next fun head => .read (words head []) .done)
    | .not => .read operand fun s => .done (.not s)
    | .leftParen => .read inner fun s => .next fun closing =>
      if closing.kind = .rightParen then .done s
      else mistaken .openGroup closing Reader.expectParen
    | _ => unexpected t Reader.expectCommand
  | _, words head latest => .peek fun t =>
    if t.kind.isWord then .next fun word => .read (words head (word :: latest)) .done
    else .done (.atom (.ofWords head latest))
  | _, spread phrase => .peek fun t =>
    match t.kind with
    | .newline => .next fun _ => .read (spread phrase) .done
    | _ => .read phrase .done

inductive Runs : {α : Type} → Program α → TokenQueue → List TokenQueue.Call →
    Except Failure α → TokenQueue → Prop
  | done {α : Type} (result : α) (q : TokenQueue) : Runs (.done result) q [] (.ok result) q
  | fail {α : Type} (failure : Failure) (q : TokenQueue) :
      Runs (.fail failure : Program α) q [] (.error failure) q
  | misuse {α : Type} (arm : Misuse) (failure : Failure) (q : TokenQueue) :
      Runs (.misuse arm failure : Program α) q [] (.error failure) q
  | peek {α : Type} {rest : Token → Program α} {q q₁ q' : TokenQueue} {t : Token}
      {calls : List TokenQueue.Call} {r : Except Failure α} (h : q.peek = (.ok t, q₁))
      (hr : Runs (rest t) q₁ calls r q') : Runs (.peek rest) q (.peek :: calls) r q'
  | peekFails {α : Type} {rest : Token → Program α} {q q' : TokenQueue} {failure : Failure}
      (h : q.peek = (.error failure, q')) : Runs (.peek rest) q [.peek] (.error failure) q'
  | next {α : Type} {rest : Token → Program α} {q q₁ q' : TokenQueue} {t : Token}
      {calls : List TokenQueue.Call} {r : Except Failure α} (h : q.next = (.ok t, q₁))
      (hr : Runs (rest t) q₁ calls r q') : Runs (.next rest) q (.next :: calls) r q'
  | nextFails {α : Type} {rest : Token → Program α} {q q' : TokenQueue} {failure : Failure}
      (h : q.next = (.error failure, q')) : Runs (.next rest) q [.next] (.error failure) q'
  | putBack {α : Type} {rest : Program α} {q q' : TokenQueue} {t : Token}
      {calls : List TokenQueue.Call} {r : Except Failure α}
      (hr : Runs rest (q.putBack t) calls r q') :
      Runs (.putBack t rest) q (.putBack t :: calls) r q'
  | read {α β : Type} {phrase : Production β} {rest : β → Program α} {q q₁ q' : TokenQueue}
      {calls others : List TokenQueue.Call} {result : β} {r : Except Failure α}
      (h : Runs phrase.program q calls (.ok result) q₁)
      (hr : Runs (rest result) q₁ others r q') :
      Runs (.read phrase rest) q (calls ++ others) r q'
  | readFails {α β : Type} {phrase : Production β} {rest : β → Program α} {q q' : TokenQueue}
      {calls : List TokenQueue.Call} {failure : Failure}
      (h : Runs phrase.program q calls (.error failure) q') :
      Runs (.read phrase rest) q calls (.error failure) q'

inductive Parses : TokenQueue → List TokenQueue.Call → Except Failure (Option Statement) →
    TokenQueue → Prop
  | exhausted {q : TokenQueue} (he : q.exhausted = true) : Parses q [] (.ok none) q
  | started {q q' : TokenQueue} {calls : List TokenQueue.Call}
      {r : Except Failure (Option Statement)} (he : q.exhausted = false)
      (h : Runs Production.start.program q calls r q') : Parses q calls r q'

theorem Runs.unique {α : Type} {program : Program α} {q q₁ q₂ : TokenQueue}
    {calls others : List TokenQueue.Call} {r r' : Except Failure α}
    (h : Runs program q calls r q₁) (h' : Runs program q others r' q₂) :
    calls = others ∧ r = r' ∧ q₁ = q₂ := by
  induction h generalizing others q₂ with
  | done =>
    cases h'
    exact ⟨rfl, rfl, rfl⟩
  | fail | misuse =>
    cases h'
    exact ⟨rfl, rfl, rfl⟩
  | peek h _ ih =>
    cases h' with
    | peek h₂ hr =>
      cases h.symm.trans h₂
      obtain ⟨rfl, rfl, rfl⟩ := ih hr
      exact ⟨rfl, rfl, rfl⟩
    | peekFails h₂ => cases h.symm.trans h₂
  | peekFails h =>
    cases h' with
    | peek h₂ => cases h.symm.trans h₂
    | peekFails h₂ =>
      cases h.symm.trans h₂
      exact ⟨rfl, rfl, rfl⟩
  | next h _ ih =>
    cases h' with
    | next h₂ hr =>
      cases h.symm.trans h₂
      obtain ⟨rfl, rfl, rfl⟩ := ih hr
      exact ⟨rfl, rfl, rfl⟩
    | nextFails h₂ => cases h.symm.trans h₂
  | nextFails h =>
    cases h' with
    | next h₂ => cases h.symm.trans h₂
    | nextFails h₂ =>
      cases h.symm.trans h₂
      exact ⟨rfl, rfl, rfl⟩
  | putBack _ ih =>
    cases h' with
    | putBack hr =>
      obtain ⟨rfl, rfl, rfl⟩ := ih hr
      exact ⟨rfl, rfl, rfl⟩
  | read _ _ ih ihr =>
    cases h' with
    | read h₂ hr =>
      obtain ⟨rfl, heq, rfl⟩ := ih h₂
      cases heq
      obtain ⟨rfl, rfl, rfl⟩ := ihr hr
      exact ⟨rfl, rfl, rfl⟩
    | readFails h₂ => cases (ih h₂).2.1
  | readFails _ ih =>
    cases h' with
    | read h₂ => cases (ih h₂).2.1
    | readFails h₂ =>
      obtain ⟨rfl, heq, rfl⟩ := ih h₂
      cases heq
      exact ⟨rfl, rfl, rfl⟩

theorem Parses.unique {q q₁ q₂ : TokenQueue} {calls others : List TokenQueue.Call}
    {r r' : Except Failure (Option Statement)} (h : Parses q calls r q₁)
    (h' : Parses q others r' q₂) : calls = others ∧ r = r' ∧ q₁ = q₂ := by
  cases h with
  | exhausted he =>
    cases h' with
    | exhausted => exact ⟨rfl, rfl, rfl⟩
    | started he' => exact absurd (he.symm.trans he') (by simp)
  | started he h =>
    cases h' with
    | exhausted he' => exact absurd (he.symm.trans he') (by simp)
    | started _ h' => exact h.unique h'

end Descent

end TinyShell
