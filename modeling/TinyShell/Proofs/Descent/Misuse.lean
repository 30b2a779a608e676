import TinyShell.Proofs.Descent.Agreement
import TinyShell.Proofs.Grammar.Shape

/-!
# What cannot be read

The productions guard against mistakes of their own: a group that is not closed
where its phrase ends, a redirection that begins with something else than its
operator, a chain that ends with nothing in it. None of these is ever come to,
in whatever state the queue was left, because a phrase inside a group ends in
front of the parenthesis and a redirection is only begun in front of an operator.
For the same reason no text is read that only a mistake in the reader could
explain, and what is read has its numbers and its words where the evaluation
looks for them.
-/

set_option autoImplicit false

namespace TinyShell

namespace TokenQueue

variable {q q' : TokenQueue} {failure : Failure}

theorem next_ne_argument (h : q.next = (.error failure, q')) (complaint : Complaint) :
    failure ≠ .argument complaint :=
  (Failure.lexical_of_character (character_of_next h)).ne_argument complaint

theorem peek_ne_argument (h : q.peek = (.error failure, q')) (complaint : Complaint) :
    failure ≠ .argument complaint :=
  next_ne_argument (next_of_peek_error h) complaint

def Faces (q : TokenQueue) (kinds : TokenKind → Bool) : Prop :=
  ∃ t, q.lookahead = some t ∧ kinds t.kind = true

end TokenQueue

namespace Descent

open TokenQueue

/-- Running the program from the queue, the arm is come to. -/
inductive Fires : {α : Type} → Program α → TokenQueue → Misuse → Prop
  | here {α : Type} (arm : Misuse) (failure : Failure) (q : TokenQueue) :
      Fires (.misuse arm failure : Program α) q arm
  | peek {α : Type} {rest : Token → Program α} {q q₁ : TokenQueue} {t : Token} {arm : Misuse}
      (h : q.peek = (.ok t, q₁)) (hr : Fires (rest t) q₁ arm) : Fires (.peek rest) q arm
  | next {α : Type} {rest : Token → Program α} {q q₁ : TokenQueue} {t : Token} {arm : Misuse}
      (h : q.next = (.ok t, q₁)) (hr : Fires (rest t) q₁ arm) : Fires (.next rest) q arm
  | putBack {α : Type} {rest : Program α} {q : TokenQueue} {t : Token} {arm : Misuse}
      (hr : Fires rest (q.putBack t) arm) : Fires (.putBack t rest) q arm
  | inside {α β : Type} {phrase : Production β} {rest : β → Program α} {q : TokenQueue}
      {arm : Misuse} (h : Fires phrase.program q arm) : Fires (.read phrase rest) q arm
  | after {α β : Type} {phrase : Production β} {rest : β → Program α} {q q₁ : TokenQueue}
      {calls : List TokenQueue.Call} {result : β} {arm : Misuse}
      (h : Runs phrase.program q calls (.ok result) q₁) (hr : Fires (rest result) q₁ arm) :
      Fires (.read phrase rest) q arm

namespace Production

def Pre : {α : Type} → Production α → TokenQueue → Prop
  | _, redirection _, q => q.Faces TokenKind.isRedirection
  | _, chainRest none, q => q.Faces TokenKind.isRedirection
  | _, spread phrase, _ => ∀ q, phrase.Pre q
  | _, _, _ => True

def Post : {α : Type} → Production α → TokenQueue → Prop
  | _, inner, q => q.Faces (· == .rightParen)
  | _, innerEnd _, q => q.Faces (· == .rightParen)
  | _, innerRest _, q => q.Faces (· == .rightParen)
  | _, spread phrase, q => phrase.Post q
  | _, _, _ => True

end Production

namespace Program

/-- The program asks for phrases where it may, comes to no misuse, fails without
a complaint, and ends where it is to end. -/
def Safe {α : Type} (post : TokenQueue → Prop) : Program α → TokenQueue → Prop
  | done _, q => post q
  | fail failure, _ => ∀ complaint, failure ≠ .argument complaint
  | misuse _ _, _ => False
  | peek rest, q => ∀ t q₁, q.peek = (.ok t, q₁) → (rest t).Safe post q₁
  | next rest, q => ∀ t q₁, q.next = (.ok t, q₁) → (rest t).Safe post q₁
  | putBack t rest, q => rest.Safe post (q.putBack t)
  | read phrase rest, q =>
    phrase.Pre q ∧ ∀ result q₁, phrase.Post q₁ → (rest result).Safe post q₁

namespace Safe

variable {α β : Type} {post : TokenQueue → Prop} {q : TokenQueue} {t : Token}
  {rest : Token → Program α}

theorem unexpected {expected : Text} : (Program.unexpected t expected : Program α).Safe post q :=
  fun _ => Failure.noConfusion

theorem see (h : ∀ t q₁, q₁.lookahead = some t → (rest t).Safe post q₁) :
    (Program.peek rest).Safe post q :=
  fun t q₁ hp => h t q₁ (next_of_peek hp).1

theorem seen (hl : q.lookahead = some t) (h : (rest t).Safe post q) :
    (Program.peek rest).Safe post q := by
  intro u q₁ hp
  rw [peek_held hl] at hp
  cases hp
  exact h

theorem take (h : ∀ t q₁, (rest t).Safe post q₁) : (Program.next rest).Safe post q :=
  fun t q₁ _ => h t q₁

theorem held (hl : q.lookahead = some t) (h : (rest t).Safe post (q.handOut t)) :
    (Program.next rest).Safe post q := by
  intro u q₁ hn
  rw [next_held hl] at hn
  cases hn
  exact h

theorem read {phrase : Production β} {rest : β → Program α} (hpre : phrase.Pre q)
    (h : ∀ result q₁, phrase.Post q₁ → (rest result).Safe post q₁) :
    (Program.read phrase rest).Safe post q := ⟨hpre, h⟩

theorem last {phrase : Production α} (hpre : phrase.Pre q)
    (h : ∀ q₁, phrase.Post q₁ → post q₁) : (Program.read phrase .done).Safe post q :=
  ⟨hpre, fun _ => h⟩

theorem redirected {left : Option Statement} {arrow : Arrow} :
    (Program.redirected left arrow).Safe (fun _ => True) q := by
  refine take fun t q₁ => ?_
  split
  next => trivial
  next => exact unexpected

end Safe

end Program

theorem redirection_safe {q : TokenQueue} (left : Option Statement)
    (h : q.Faces TokenKind.isRedirection) :
    (Production.redirection left).program.Safe (fun _ => True) q := by
  obtain ⟨t, hl, hk⟩ := h
  refine .held hl ?_
  split
  next =>
    split
    next => exact .unexpected
    next => exact .redirected
    next => exact .redirected
  next =>
    split
    next => exact .unexpected
    next => exact .redirected
    next => exact .redirected
  next => exact .redirected
  next => exact .redirected
  next => exact .redirected
  next =>
    split
    next => exact .unexpected
    next => trivial
  next ho ha hmo hma hi hms =>
    -- Every kind of operator has an arm of its own.
    cases hkind : t.kind <;> simp_all [TokenKind.isRedirection]

/-- A group ends in front of its parenthesis, so the parenthesis is there. -/
theorem operand_safe (q : TokenQueue) :
    Production.operand.program.Safe (fun _ => True) q := by
  refine .take fun t q₁ => ?_
  split
  next => exact .take fun _ _ => .last trivial fun _ _ => trivial
  next => exact .take fun _ _ => .last trivial fun _ _ => trivial
  next => exact .read trivial fun _ _ _ => trivial
  next =>
    refine .read trivial fun _ q₂ hends => ?_
    obtain ⟨closing, hl, hk⟩ := hends
    refine .held hl ?_
    rw [if_pos (beq_iff_eq.mp hk)]
    trivial
  next => exact .unexpected

theorem production_safe {α : Type} (phrase : Production α) {q : TokenQueue} (h : phrase.Pre q) :
    phrase.program.Safe phrase.Post q := by
  cases phrase with
  | start =>
    refine .see fun t q₁ _ => ?_
    split
    next => exact .take fun _ _ => .last trivial fun _ _ => trivial
    next => exact .take fun _ _ => .last trivial fun _ _ => trivial
    next => exact .take fun _ _ => trivial
    next => exact .read trivial fun _ _ _ => trivial
  | statement =>
    refine .read trivial fun left _ _ => .take fun t _ => ?_
    split
    next => trivial
    next => trivial
    next =>
      refine .see fun u _ _ => ?_
      split
      next => exact .take fun _ _ => trivial
      next => exact .take fun _ _ => trivial
      next => exact .read trivial fun _ _ _ => trivial
    next => exact .unexpected
  | inner => exact .read (fun _ => trivial) fun _ _ _ => .last trivial fun _ hends => hends
  | innerEnd left =>
    refine .see fun t q₁ hl => ?_
    split
    next hk => exact ⟨t, hl, beq_iff_eq.mpr hk⟩
    next => exact .take fun _ _ => .last (fun _ => trivial) fun _ hends => hends
    next => exact .take fun _ _ => .last (fun _ => trivial) fun _ hends => hends
    next => exact .unexpected
  | innerRest left =>
    refine .see fun t q₁ hl => ?_
    split
    next hk => exact ⟨t, hl, beq_iff_eq.mpr hk⟩
    next => exact .read trivial fun _ _ hends => hends
  | logical => exact .read trivial fun _ _ _ => .last trivial fun _ _ => trivial
  | logicalRest left =>
    refine .see fun t _ _ => ?_
    split
    next =>
      exact .take fun _ _ => .read (fun _ => trivial) fun _ _ _ =>
        .last trivial fun _ _ => trivial
    next => trivial
  | pipeline =>
    refine .read trivial fun left _ _ => .see fun t _ _ => ?_
    split
    next => exact .take fun _ _ => .read (fun _ => trivial) fun _ _ _ => trivial
    next => trivial
  | chain =>
    refine .see fun t q₁ hl => ?_
    split
    next hk => exact .last ⟨t, hl, hk⟩ fun _ _ => trivial
    next => exact .read trivial fun _ _ _ => .last trivial fun _ _ => trivial
  | chainRest left =>
    cases left with
    | none =>
      obtain ⟨t, hl, hk⟩ := h
      refine .seen hl ?_
      rw [if_pos hk]
      exact .read ⟨t, hl, hk⟩ fun _ _ _ => .last trivial fun _ _ => trivial
    | some s =>
      refine .see fun t q₁ hl => ?_
      split
      next hk => exact .read ⟨t, hl, hk⟩ fun _ _ _ => .last trivial fun _ _ => trivial
      next => trivial
  | redirection left => exact redirection_safe left h
  | operand => exact operand_safe q
  | words head latest =>
    refine .see fun t _ _ => ?_
    split
    next => exact .take fun _ _ => .last trivial fun _ _ => trivial
    next => trivial
  | spread phrase =>
    refine .see fun t q₁ _ => ?_
    split
    next => exact .take fun _ _ => .last h fun _ hends => hends
    next => exact .last (h q₁) fun _ hends => hends

def SafeEnd {α : Type} (post : TokenQueue → Prop) : Except Failure α → TokenQueue → Prop
  | .ok _, q => post q
  | .error failure, _ => ∀ complaint, failure ≠ .argument complaint

section Runs

variable {α : Type} {program : Program α} {q q' : TokenQueue} {calls : List TokenQueue.Call}
  {r : Except Failure α} {post : TokenQueue → Prop} {arm : Misuse}

/-- A safe program ends where it is to end, or fails without a complaint. -/
theorem Runs.safe (h : Runs program q calls r q') (hs : program.Safe post q) :
    SafeEnd post r q' := by
  induction h generalizing post with
  | done => exact hs
  | fail => exact hs
  | misuse => exact hs.elim
  | peek h _ ih | next h _ ih => exact ih (hs _ _ h)
  | peekFails h => exact peek_ne_argument h
  | nextFails h => exact next_ne_argument h
  | putBack _ ih => exact ih hs
  | read _ _ ih ihr => exact ihr (hs.2 _ _ (ih (production_safe _ hs.1)))
  | readFails _ ih => exact ih (production_safe _ hs.1)

theorem Fires.not_safe (h : Fires program q arm) : ¬ program.Safe post q := by
  intro hs
  induction h generalizing post with
  | here => exact hs
  | peek h _ ih | next h _ ih => exact ih (hs _ _ h)
  | putBack _ ih => exact ih hs
  | inside _ ih => exact ih (production_safe _ hs.1)
  | after h _ ih =>
    have hpost := h.safe (production_safe _ hs.1)
    exact ih (hs.2 _ _ hpost)

end Runs

theorem Parses.ne_argument {q q' : TokenQueue} {calls : List TokenQueue.Call} {failure : Failure}
    (h : Parses q calls (.error failure) q') (complaint : Complaint) :
    failure ≠ .argument complaint := by
  cases h with
  | started _ h =>
    have hfails := h.safe (production_safe .start trivial)
    exact hfails complaint

end Descent

namespace TokenQueue

open Descent

/-- Whatever state a scanner or a queue has been brought to: its tokens are of a
known kind, and where there is no token the input is the reason. Reading a
statement comes to an answer without any misuse on the way, and no answer
complains of an argument. A statement has all its words and numbers where they
belong, and evaluating any part of it never finds a word in the place of a
descriptor. -/
theorem misuse_unreachable :
    (∀ (s s' : Scanner) (t : Token), s.next = (.ok t, s') → t.kind ≠ .invalid) ∧
    (∀ (s s' : Scanner) (failure : Failure), s.next = (.error failure, s') →
      failure.Lexical ∧ ∀ complaint, failure ≠ .argument complaint) ∧
    (∀ q : TokenQueue, (∃ calls r q', Parses q calls r q') ∧
      ∀ arm, ¬ Fires Production.start.program q arm) ∧
    ∀ (q q' : TokenQueue) (calls : List Call) (r : Except Failure (Option Statement)),
      Parses q calls r q' →
      q.read = (r, q') ∧
      (∀ failure complaint, r = .error failure → failure ≠ .argument complaint) ∧
      ∀ t, r = .ok (some t) → t.isShapedRoot = true ∧
        ∀ u ∈ t.parts, ∀ (host : Host) (s : ShellState) (operand : Text),
          (u.evaluate host s).outcome ≠ .failed (.argument (.notDescriptor operand)) := by
  refine ⟨?_, ?_, ?_, ?_⟩
  · intro s s' t h
    exact Scanner.next_recognized h
  · intro s s' failure h
    have hlexical := Failure.lexical_of_character (Scanner.character_of_next h)
    exact ⟨hlexical, hlexical.ne_argument⟩
  · intro q
    obtain ⟨calls, h⟩ := parses_read q
    exact ⟨⟨calls, _, _, h⟩, fun arm hf => hf.not_safe (production_safe .start trivial)⟩
  · intro q q' calls r h
    have hread := read_of_parses h
    refine ⟨hread, ?_, ?_⟩
    · rintro failure complaint rfl
      exact h.ne_argument complaint
    · rintro t rfl
      have hshaped := read_shaped hread
      refine ⟨hshaped, fun u hu host s operand ho => ?_⟩
      refine Statement.evaluate_not_blames (fun r hr => ?_) ⟨operand, ho⟩
      exact Statement.redirections_root hshaped r (Statement.redirections_part hu r hr)

-- After an open parenthesis and a word the end of the input is found, and stays ahead.
example : (match (ofInput (.ofBytes [40, 97])).read with
    | (.error (.grammar _ kind expected), q) =>
      kind == .endOfInput && expected == Reader.expectParen &&
        q.lookahead.map Token.kind == some .endOfInput
    | _ => false) = true := by
  decide +kernel

end TokenQueue

end TinyShell
