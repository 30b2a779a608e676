import TinyShell.Proofs.Descent.Rules

/-!
# How productions call the queue

A queue has room for one token. The productions never need more: a token is put
back only right after it was handed out, and is asked for again at once. This
can be read off each production, and holds of every sequence of calls they
make, also of one that a failure cuts short.
-/

set_option autoImplicit false

namespace TinyShell

namespace TokenQueue

def perform (q : TokenQueue) : Call → TokenQueue
  | .peek => q.peek.2
  | .next => q.next.2
  | .putBack t => q.putBack t
  | .clear => q.clear

def performs (q : TokenQueue) : List Call → TokenQueue
  | [] => q
  | call :: calls => (q.perform call).performs calls

theorem performs_append (q : TokenQueue) (calls others : List Call) :
    q.performs (calls ++ others) = (q.performs calls).performs others := by
  induction calls generalizing q with
  | nil => rfl
  | cons call calls ih => exact ih _

/-- The calls come one by one, but for a token that is put back: it was handed
out just before, and the next call asks for it again. -/
inductive Orderly : TokenQueue → List Call → Prop
  | nil (q : TokenQueue) : Orderly q []
  | alone {q : TokenQueue} {call : Call} {calls : List Call} (hc : ∀ t, call ≠ .putBack t)
      (h : Orderly (q.perform call) calls) : Orderly q (call :: calls)
  | again {q q' : TokenQueue} {t : Token} {calls : List Call} (hn : q.next = (.ok t, q'))
      (h : Orderly q' calls) : Orderly q (.next :: .putBack t :: .next :: calls)

variable {q q' : TokenQueue} {calls others : List Call} {t : Token}

/-- After the token came again, the queue is as if it had not been put back. -/
theorem perform_again (hn : q.next = (.ok t, q')) :
    ((q.perform .next).perform (.putBack t)).perform .next = q' := by
  simp only [perform, hn, next_putBack hn]

theorem Orderly.append (h : q.Orderly calls) (h' : (q.performs calls).Orderly others) :
    q.Orderly (calls ++ others) := by
  induction h with
  | nil => exact h'
  | alone hc _ ih => exact .alone hc (ih h')
  | again hn _ ih =>
    simp only [performs, perform_again hn] at h'
    exact .again hn (ih h')

/-- What is known of a token that is put back: it has just been handed out,
nothing is ahead, and it is asked for next. -/
structure Returned (q : TokenQueue) (before : List Call) (t : Token) (after : List Call) :
    Prop where
  free : (q.performs before).lookahead = none
  handed : ∃ earlier, before = earlier ++ [.next] ∧ (q.performs earlier).next.1 = .ok t
  asked : ∃ later, after = .next :: later

theorem Returned.cons {before after : List Call} {call : Call}
    (h : (q.perform call).Returned before t after) : q.Returned (call :: before) t after := by
  obtain ⟨earlier, rfl, ht⟩ := h.handed
  exact ⟨h.free, ⟨call :: earlier, rfl, ht⟩, h.asked⟩

theorem before_cons {call : Call} {before after : List Call}
    (h : call :: calls = before ++ .putBack t :: after) (hcall : call ≠ .putBack t) :
    ∃ rest, before = call :: rest ∧ calls = rest ++ .putBack t :: after := by
  rcases List.cons_eq_append_iff.mp h with ⟨_, heq⟩ | hrest
  · cases heq
    exact absurd rfl hcall
  · exact hrest

theorem Orderly.returned (h : q.Orderly calls) {before after : List Call}
    (heq : calls = before ++ .putBack t :: after) : q.Returned before t after := by
  induction h generalizing before with
  | nil => simp at heq
  | alone hc _ ih =>
    obtain ⟨rest, rfl, hcalls⟩ := before_cons heq (hc t)
    exact (ih hcalls).cons
  | @again q q' u calls hn _ ih =>
    obtain ⟨handed, rfl, hback⟩ := before_cons heq nofun
    rcases List.cons_eq_append_iff.mp hback with ⟨rfl, hcall⟩ | ⟨back, rfl, hasked⟩
    · cases hcall
      have hq : q.performs [.next] = q' := by simp only [performs, perform, hn]
      exact ⟨hq ▸ lookahead_next hn, ⟨[], rfl, by rw [performs, hn]⟩, calls, rfl⟩
    · obtain ⟨rest, rfl, hcalls⟩ := before_cons hasked nofun
      have hrest := ih hcalls
      rw [← perform_again hn] at hrest
      exact hrest.cons.cons.cons

end TokenQueue

namespace Descent

open TokenQueue

inductive Mode
  | plain
  | handed (t : Token)
  | returned (t : Token)

def Program.Sound {α : Type} : Mode → Program α → Prop
  | .returned _, .next rest => ∀ t, (rest t).Sound .plain
  | .returned _, _ => False
  | .handed t, .putBack u rest => u = t ∧ rest.Sound (.returned t)
  | .plain, .putBack _ _ => False
  | _, .done _ => True
  | _, .fail _ => True
  | _, .misuse _ _ => True
  | _, .peek rest => ∀ t, (rest t).Sound .plain
  | _, .next rest => ∀ t, (rest t).Sound (.handed t)
  | _, .read _ rest => ∀ result, (rest result).Sound .plain

namespace Program.Sound

variable {α β : Type} {program : Program α} {rest : Token → Program α} {t : Token}

theorem handed (h : program.Sound .plain) : program.Sound (.handed t) := by
  cases program with
  | done | fail | misuse => trivial
  | peek | read => exact h
  | next => exact h
  | putBack => exact h.elim

theorem peek (h : ∀ t, (rest t).Sound .plain) : (Program.peek rest).Sound .plain := h

theorem next (h : ∀ t, (rest t).Sound (.handed t)) : (Program.next rest).Sound .plain := h

theorem take (h : ∀ t, (rest t).Sound .plain) : (Program.next rest).Sound .plain :=
  fun t => (h t).handed

theorem read {phrase : Production β} {rest : β → Program α} (h : ∀ b, (rest b).Sound .plain) :
    (Program.read phrase rest).Sound .plain := h

theorem last {phrase : Production α} : (Program.read phrase .done).Sound .plain :=
  read fun _ => trivial

theorem redirected {left : Option Statement} {arrow : Arrow} :
    (Program.redirected left arrow).Sound .plain := by
  refine take fun t => ?_
  split <;> trivial

end Program.Sound

theorem production_sound {α : Type} (phrase : Production α) : phrase.program.Sound .plain := by
  cases phrase with
  | start =>
    refine .peek fun t => ?_
    split
    · exact .take fun _ => .last
    · exact .take fun _ => .last
    · exact .take fun _ => trivial
    · exact .read fun _ => trivial
  | statement =>
    refine .read fun left => .take fun t => ?_
    split
    · trivial
    · trivial
    · refine .peek fun u => ?_
      split
      · exact .take fun _ => trivial
      · exact .take fun _ => trivial
      · exact .read fun _ => trivial
    · trivial
  | inner => exact .read fun _ => .last
  | innerEnd left =>
    refine .peek fun t => ?_
    split
    · trivial
    · exact .take fun _ => .last
    · exact .take fun _ => .last
    · trivial
  | innerRest left =>
    refine .peek fun t => ?_
    split
    · trivial
    · exact .read fun _ => trivial
  | logical => exact .read fun _ => .last
  | logicalRest left =>
    refine .peek fun t => ?_
    split
    · exact .take fun _ => .read fun _ => .last
    · trivial
  | pipeline =>
    refine .read fun left => .peek fun t => ?_
    split
    · exact .take fun _ => .read fun _ => trivial
    · trivial
  | chain =>
    refine .peek fun t => ?_
    split
    · exact .last
    · exact .read fun _ => .last
  | chainRest left =>
    refine .peek fun t => ?_
    split
    · exact .read fun _ => .last
    · cases left <;> trivial
  | redirection left =>
    refine .take fun t => ?_
    split
    · split
      · trivial
      · exact .redirected
      · exact .redirected
    · split
      · trivial
      · exact .redirected
      · exact .redirected
    · exact .redirected
    · exact .redirected
    · exact .redirected
    · split <;> trivial
    · trivial
  | operand =>
    refine .next fun t => ?_
    split
    · exact ⟨rfl, fun _ => .last⟩
    · exact ⟨rfl, fun _ => .last⟩
    · exact .handed (.read fun _ => trivial)
    · refine .handed (.read fun s => .take fun closing => ?_)
      split <;> trivial
    · trivial
  | words head latest =>
    refine .peek fun t => ?_
    split
    · exact .take fun _ => .last
    · trivial
  | spread phrase =>
    refine .peek fun t => ?_
    split
    · exact .take fun _ => .last
    · exact .last

section Runs

variable {α : Type} {program : Program α} {q q' : TokenQueue} {t : Token}
  {calls : List TokenQueue.Call} {r : Except Failure α}

theorem Runs.performs (h : Runs program q calls r q') : q.performs calls = q' := by
  induction h with
  | done => rfl
  | fail => rfl
  | misuse => rfl
  | peek h _ ih | next h _ ih =>
    rw [TokenQueue.performs, perform, h]
    exact ih
  | peekFails h | nextFails h =>
    rw [TokenQueue.performs, perform, h]
    rfl
  | putBack _ ih => exact ih
  | read _ _ ih ihr => rw [performs_append, ih, ihr]
  | readFails _ ih => exact ih

def Orders (calls : List TokenQueue.Call) (q : TokenQueue) : Mode → Prop
  | .plain => q.Orderly calls
  | .handed t => ∀ q₀ : TokenQueue, q₀.next = (.ok t, q) → q₀.Orderly (.next :: calls)
  | .returned t => ∀ q₀ q₁ : TokenQueue, q₀.next = (.ok t, q₁) → q = q₁.putBack t →
      q₀.Orderly (.next :: .putBack t :: calls)

theorem orders_of_orderly {mode : Mode} (h : q.Orderly calls) (hm : ∀ t, mode ≠ .returned t) :
    Orders calls q mode := by
  cases mode with
  | plain => exact h
  | handed t =>
    intro q₀ hn
    refine .alone nofun ?_
    rw [perform, hn]
    exact h
  | returned t => exact absurd rfl (hm t)

theorem Program.Sound.not_returned {mode : Mode} (hs : program.Sound mode)
    (hn : ∀ rest, program ≠ .next rest) (t : Token) : mode ≠ .returned t := by
  rintro rfl
  cases program with
  | next rest => exact hn rest rfl
  | done | fail | misuse | peek | putBack | read => exact hs.elim

theorem Program.Sound.of_peek {rest : Token → Program α} {mode : Mode}
    (hs : (Program.peek rest).Sound mode) (t : Token) : (rest t).Sound .plain := by
  cases mode with
  | plain | handed => exact hs t
  | returned => exact hs.elim

theorem Program.Sound.of_read {β : Type} {phrase : Production β} {rest : β → Program α}
    {mode : Mode} (hs : (Program.read phrase rest).Sound mode) (result : β) :
    (rest result).Sound .plain := by
  cases mode with
  | plain | handed => exact hs result
  | returned => exact hs.elim

theorem Runs.orders (h : Runs program q calls r q') {mode : Mode} (hs : program.Sound mode) :
    Orders calls q mode := by
  induction h generalizing mode with
  | done | fail | misuse => exact orders_of_orderly (.nil _) (hs.not_returned nofun)
  | peek h _ ih =>
    refine orders_of_orderly (.alone nofun ?_) (hs.not_returned nofun)
    rw [perform, h]
    exact ih (hs.of_peek _)
  | peekFails => exact orders_of_orderly (.alone nofun (.nil _)) (hs.not_returned nofun)
  | @next _ rest q q₁ _ t calls _ h _ ih =>
    cases mode with
    | plain => exact ih (hs t) q h
    | handed => exact orders_of_orderly (ih (hs t) q h) nofun
    | returned u =>
      -- What comes is the token that was put back.
      rintro q₀ q₂ hn rfl
      rw [next_putBack hn] at h
      cases h
      have hplain : Orders calls q₁ .plain := ih (hs t)
      exact .again hn hplain
  | nextFails h =>
    cases mode with
    | plain | handed => exact orders_of_orderly (.alone nofun (.nil _)) nofun
    | returned u =>
      rintro q₀ q₂ hn rfl
      rw [next_putBack hn] at h
      cases h
  | putBack _ ih =>
    cases mode with
    | plain | returned => exact hs.elim
    | handed t =>
      obtain ⟨rfl, hrest⟩ := hs
      exact fun q₀ hn => ih hrest q₀ _ hn rfl
  | @read _ _ phrase _ _ _ _ _ _ _ _ h _ ih ihr =>
    refine orders_of_orderly (Orderly.append (ih (production_sound phrase)) ?_)
      (hs.not_returned nofun)
    rw [h.performs]
    exact ihr (hs.of_read _)
  | @readFails _ _ phrase _ _ _ _ _ _ ih =>
    exact orders_of_orderly (ih (production_sound phrase)) (hs.not_returned nofun)

end Runs

section Parses

variable {q q' : TokenQueue} {calls : List TokenQueue.Call}
  {r : Except Failure (Option Statement)}

theorem Parses.performs (h : Parses q calls r q') : q.performs calls = q' := by
  cases h with
  | exhausted => rfl
  | started _ h => exact h.performs

/-- Whatever is read, and whether or not it fails, the calls are in order. -/
theorem Parses.orderly (h : Parses q calls r q') : q.Orderly calls := by
  cases h with
  | exhausted => exact .nil q
  | started _ h => exact h.orders (production_sound .start)

end Parses

end Descent

end TinyShell
