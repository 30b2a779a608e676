import TinyShell.Proofs.Descent.Agreement
import TinyShell.Proofs.Descent.Discipline

/-!
# No token is lost, and none comes twice

What a queue does is followed call by call. Each token that the scanner
produces is handed out once, or dropped with the rest of its line, or is still
ahead; and these come in the order in which they were scanned. The end of the
input is never dropped, and it is what exhausts the queue.
-/

set_option autoImplicit false

namespace TinyShell

namespace Scanner

inductive Ask
  | next
  | clear
deriving DecidableEq, Repr

@[simp]
def ask (s : Scanner) : Ask → Scanner
  | .next => s.next.2
  | .clear => s.clear

@[simp]
def answer (s : Scanner) : Ask → Option Token
  | .next => s.next.1.toOption
  | .clear => none

@[simp]
def afterwards (s : Scanner) : List Ask → Scanner
  | [] => s
  | a :: asks => (s.ask a).afterwards asks

@[simp]
def produced (s : Scanner) : List Ask → List Token
  | [] => []
  | a :: asks => (s.answer a).toList ++ (s.ask a).produced asks

theorem afterwards_append (s : Scanner) (asks others : List Ask) :
    s.afterwards (asks ++ others) = (s.afterwards asks).afterwards others := by
  induction asks generalizing s with
  | nil => rfl
  | cons a asks ih => exact ih _

theorem produced_append (s : Scanner) (asks others : List Ask) :
    s.produced (asks ++ others) = s.produced asks ++ (s.afterwards asks).produced others := by
  induction asks generalizing s with
  | nil => rfl
  | cons a asks ih => simp only [List.cons_append, produced, afterwards, ih, List.append_assoc]

end Scanner

namespace TokenQueue

structure Moment where
  queue : TokenQueue
  call : Call

def moments (q : TokenQueue) : List Call → List Moment
  | [] => []
  | call :: calls => ⟨q, call⟩ :: (q.perform call).moments calls

inductive Fate
  | handed (t : Token)
  | dropped (t : Token)
deriving DecidableEq, Repr

@[simp]
def Fate.token : Fate → Token
  | .handed t | .dropped t => t

namespace Moment

def ask? (m : Moment) : Option Scanner.Ask :=
  match m.call with
  | .peek | .next => if m.queue.lookahead = none then some .next else none
  | .putBack _ => none
  | .clear => if m.queue.clear.lookahead = none then some .clear else none

def handed? (m : Moment) : Option Token :=
  match m.call with
  | .next => m.queue.next.1.toOption
  | _ => none

def dropped? (m : Moment) : Option Token :=
  match m.call with
  | .clear => if m.queue.clear.lookahead = none then m.queue.lookahead else none
  | _ => none

def returned? (m : Moment) : Option Token :=
  match m.call with
  | .putBack t => some t
  | .clear => m.queue.lookahead.filter fun t => t.kind = .endOfInput
  | _ => none

def fate? (m : Moment) : Option Fate :=
  m.handed?.map .handed <|> m.dropped?.map .dropped

end Moment

def asks (ms : List Moment) : List Scanner.Ask := ms.filterMap Moment.ask?

def settled : List Moment → List Fate
  | [] => []
  | ⟨_, .putBack _⟩ :: ⟨_, .next⟩ :: ms => settled ms
  | m :: ms => m.fate?.toList ++ settled ms

/-- From the one queue to the other the scanner was asked for this: what was
ahead at first, and what was scanned since, has come to these fates, or is ahead. -/
structure Accounts (q : TokenQueue) (asks : List Scanner.Ask) (fates : List Fate)
    (q' : TokenQueue) : Prop where
  scanner : q'.scanner = q.scanner.afterwards asks
  tokens : q.lookahead.toList ++ q.scanner.produced asks =
    fates.map Fate.token ++ q'.lookahead.toList

section Account

variable {q q₁ q' : TokenQueue} {t : Token} {call : Call} {calls : List Call} {m : Moment}
  {ms : List Moment} {asked others : List Scanner.Ask} {fates rest : List Fate}

theorem Accounts.refl (q : TokenQueue) : q.Accounts [] [] q :=
  ⟨rfl, by simp⟩

theorem Accounts.trans (h : q.Accounts asked fates q₁) (h' : q₁.Accounts others rest q') :
    q.Accounts (asked ++ others) (fates ++ rest) q' := by
  refine ⟨?_, ?_⟩
  · rw [Scanner.afterwards_append, ← h.scanner, h'.scanner]
  · calc q.lookahead.toList ++ q.scanner.produced (asked ++ others)
        = (q.lookahead.toList ++ q.scanner.produced asked) ++ q₁.scanner.produced others := by
          rw [Scanner.produced_append, ← h.scanner, List.append_assoc]
      _ = fates.map Fate.token ++ (q₁.lookahead.toList ++ q₁.scanner.produced others) := by
          rw [h.tokens, List.append_assoc]
      _ = (fates ++ rest).map Fate.token ++ q'.lookahead.toList := by
          rw [h'.tokens, List.map_append, List.append_assoc]

theorem settled_cons (hc : ∀ t, m.call ≠ .putBack t) :
    settled (m :: ms) = m.fate?.toList ++ settled ms := by
  rw [settled]
  intro queue t _ _ hm
  exact absurd (congrArg Moment.call hm) (hc t)

/-- A token is handed out, or nothing is: then the scanner has failed. -/
theorem account_next (q : TokenQueue) :
    q.Accounts (Moment.ask? ⟨q, .next⟩).toList (Moment.fate? ⟨q, .next⟩).toList q.next.2 := by
  cases hl : q.lookahead with
  | some t =>
    have hn := next_held hl
    constructor <;>
      simp [Moment.ask?, Moment.fate?, Moment.handed?, Moment.dropped?, hl, hn, handOut,
        Except.toOption]
  | none =>
    cases hn : q.next with
    | mk r q' =>
      obtain ⟨hs, hfree, _⟩ := next_scanned hl hn
      constructor <;> cases r <;>
        simp [Moment.ask?, Moment.fate?, Moment.handed?, Moment.dropped?, hl, hn, hfree, hs,
          Except.toOption]

theorem account_peek (q : TokenQueue) :
    q.Accounts (Moment.ask? ⟨q, .peek⟩).toList (Moment.fate? ⟨q, .peek⟩).toList q.peek.2 := by
  have hfate : Moment.fate? ⟨q, .peek⟩ = none := rfl
  cases hl : q.lookahead with
  | some t =>
    rw [peek_held hl]
    constructor <;> simp [Moment.ask?, hfate, hl]
  | none =>
    cases hs : q.scanner.next with
    | mk r s =>
      constructor <;> cases r <;> simp [Moment.ask?, hfate, peek, hl, hs, Except.toOption]

theorem account_clear (q : TokenQueue) :
    q.Accounts (Moment.ask? ⟨q, .clear⟩).toList (Moment.fate? ⟨q, .clear⟩).toList q.clear := by
  have hfate : Moment.fate? ⟨q, .clear⟩ = (Moment.dropped? ⟨q, .clear⟩).map .dropped := rfl
  cases hl : q.lookahead with
  | none => constructor <;> simp [Moment.ask?, hfate, Moment.dropped?, clear, hl]
  | some t =>
    by_cases ht : t.kind = .endOfInput
    · constructor <;> simp [Moment.ask?, hfate, Moment.dropped?, clear, hl, ht, putBack]
    · constructor <;> simp [Moment.ask?, hfate, Moment.dropped?, clear, hl, ht]

theorem account_perform (q : TokenQueue) (hc : ∀ t, call ≠ .putBack t) :
    q.Accounts (Moment.ask? ⟨q, call⟩).toList (Moment.fate? ⟨q, call⟩).toList
      (q.perform call) := by
  cases call with
  | putBack t => exact absurd rfl (hc t)
  | peek => exact account_peek q
  | next => exact account_next q
  | clear => exact account_clear q

theorem asks_cons (m : Moment) (ms : List Moment) : asks (m :: ms) = m.ask?.toList ++ asks ms := by
  cases h : m.ask? <;> simp [asks, h]

/-- The induction is along the order of the calls, so that a token that comes
again is met together with its first coming. -/
theorem Orderly.account (h : q.Orderly calls) :
    q.Accounts (asks (q.moments calls)) (settled (q.moments calls)) (q.performs calls) := by
  induction h with
  | nil q => exact .refl q
  | alone hc _ ih =>
    rw [moments, asks_cons, settled_cons hc]
    exact (account_perform _ hc).trans ih
  | @again q q' t calls hn _ ih =>
    have hfirst : q.Accounts (Moment.ask? ⟨q, .next⟩).toList
        (Moment.fate? ⟨q, .next⟩).toList q' := by
      have hnext := account_next q
      rwa [hn] at hnext
    have hmoments : q.moments (.next :: .putBack t :: .next :: calls) =
        ⟨q, .next⟩ :: ⟨q', .putBack t⟩ :: ⟨q'.putBack t, .next⟩ :: q'.moments calls := by
      simp only [moments, perform, hn, next_putBack hn]
    have hasks : asks (⟨q', .putBack t⟩ :: ⟨q'.putBack t, .next⟩ :: q'.moments calls) =
        asks (q'.moments calls) := by
      simp [asks_cons, Moment.ask?, putBack]
    have hlast : q.performs (.next :: .putBack t :: .next :: calls) = q'.performs calls := by
      simp only [performs, perform_again hn]
    have hcall : ∀ u, (Moment.mk q .next).call ≠ .putBack u := fun _ => Call.noConfusion
    rw [hmoments, hlast, asks_cons, hasks, settled_cons hcall, settled]
    exact hfirst.trans ih

/-- The first word comes twice and counts once; the second one was only looked
at, and goes with its line. -/
example : settled ((ofInput (.ofBytes (Utf8.encode (("a b\n" : String) : Text)))).moments
    [.next, .putBack ⟨.command, ['a'], ⟨1, 1⟩⟩, .next, .peek, .clear]) =
    [.handed ⟨.command, ['a'], ⟨1, 1⟩⟩, .dropped ⟨.command, ['b'], ⟨1, 3⟩⟩] := by
  decide +kernel

theorem mem_settled {fate : Fate} (h : fate ∈ settled ms) : ∃ m ∈ ms, m.fate? = some fate := by
  fun_induction settled ms with
  | case1 => simp at h
  | case2 _ _ _ _ ih =>
    obtain ⟨m, hm, hf⟩ := ih h
    exact ⟨m, by simp [hm], hf⟩
  | case3 m ms _ ih =>
    rcases List.mem_append.mp h with h | h
    · exact ⟨m, by simp, Option.mem_toList.mp h⟩
    · obtain ⟨m, hm, hf⟩ := ih h
      exact ⟨m, by simp [hm], hf⟩

/-- The end of the input stays ahead when the rest of a line is dropped. -/
theorem dropped_kind (h : m.dropped? = some t) : t.kind ≠ .endOfInput := by
  obtain ⟨q, call⟩ := m
  cases call with
  | peek | next | putBack => cases h
  | clear =>
    intro ht
    by_cases hc : q.clear.lookahead = none
    · have hl : q.lookahead = some t := by simpa [Moment.dropped?, hc] using h
      simp [clear, hl, ht, putBack] at hc
    · simp [Moment.dropped?, hc] at h

theorem dropped_settled (h : Fate.dropped t ∈ settled ms) : t.kind ≠ .endOfInput := by
  obtain ⟨m, _, hf⟩ := mem_settled h
  cases hh : m.handed? with
  | some u => simp [Moment.fate?, hh] at hf
  | none => exact dropped_kind (by simpa [Moment.fate?, hh] using hf)

end Account

def Moment.HandsEnd (m : Moment) : Prop := ∃ t, m.handed? = some t ∧ t.kind = .endOfInput

def Moment.ReturnsEnd (m : Moment) : Prop := ∃ t, m.returned? = some t ∧ t.kind = .endOfInput

def EndHanded (ms : List Moment) : Prop :=
  ∃ earlier m later, ms = earlier ++ m :: later ∧ m.HandsEnd ∧ ∀ m' ∈ later, ¬ m'.ReturnsEnd

section Exhausted

variable {q : TokenQueue} {call : Call} {calls : List Call} {m : Moment} {ms : List Moment}

theorem endHanded_cons : EndHanded (m :: ms) ↔
    m.HandsEnd ∧ (∀ m' ∈ ms, ¬ m'.ReturnsEnd) ∨ EndHanded ms := by
  constructor
  · rintro ⟨earlier, m', later, heq, hm, hlater⟩
    rcases List.cons_eq_append_iff.mp heq with ⟨_, hcons⟩ | ⟨earlier, _, hms⟩
    · cases hcons
      exact .inl ⟨hm, hlater⟩
    · exact .inr ⟨earlier, m', later, hms, hm, hlater⟩
  · rintro (⟨hm, hms⟩ | ⟨earlier, m', later, rfl, hm, hlater⟩)
    · exact ⟨[], m, ms, rfl, hm, hms⟩
    · exact ⟨m :: earlier, m', later, rfl, hm, hlater⟩

theorem exhausted_peek (q : TokenQueue) : q.peek.2.exhausted = q.exhausted := by
  unfold peek
  split
  next => rfl
  next => split <;> rfl

theorem exhausted_next_error {q' : TokenQueue} {failure : Failure}
    (h : q.next = (.error failure, q')) : q'.exhausted = q.exhausted := by
  unfold next at h
  split at h
  next => cases h
  next =>
    split at h
    next => cases h
    next =>
      cases h
      rfl

theorem exhausted_clear (q : TokenQueue) :
    q.clear.exhausted = true ↔ q.exhausted = true ∧ ¬ (Moment.mk q .clear).ReturnsEnd := by
  cases hl : q.lookahead with
  | none => simp [clear, hl, Moment.ReturnsEnd, Moment.returned?]
  | some t =>
    by_cases ht : t.kind = .endOfInput
    · simp [clear, hl, ht, putBack, Moment.ReturnsEnd, Moment.returned?, Option.filter]
    · simp [clear, hl, ht, Moment.ReturnsEnd, Moment.returned?, Option.filter]

theorem exhausted_perform (q : TokenQueue) (call : Call) : (q.perform call).exhausted = true ↔
    (Moment.mk q call).HandsEnd ∨ q.exhausted = true ∧ ¬ (Moment.mk q call).ReturnsEnd := by
  cases call with
  | peek =>
    rw [perform, exhausted_peek]
    simp [Moment.HandsEnd, Moment.ReturnsEnd, Moment.handed?, Moment.returned?]
  | next =>
    cases hn : q.next with
    | mk r q' =>
      cases r with
      | ok t =>
        rw [perform, hn, exhausted_next hn]
        simp [Moment.HandsEnd, Moment.ReturnsEnd, Moment.handed?, Moment.returned?, hn,
          Except.toOption, or_comm]
      | error failure =>
        rw [perform, hn, exhausted_next_error hn]
        simp [Moment.HandsEnd, Moment.ReturnsEnd, Moment.handed?, Moment.returned?, hn,
          Except.toOption]
  | putBack t => simp [perform, putBack, Moment.HandsEnd, Moment.ReturnsEnd, Moment.handed?,
      Moment.returned?]
  | clear =>
    rw [perform, exhausted_clear]
    simp [Moment.HandsEnd, Moment.handed?]

theorem exhausted_performs (q : TokenQueue) (calls : List Call) :
    (q.performs calls).exhausted = true ↔ EndHanded (q.moments calls) ∨
      q.exhausted = true ∧ ∀ m ∈ q.moments calls, ¬ m.ReturnsEnd := by
  induction calls generalizing q with
  | nil => simp [performs, moments, EndHanded]
  | cons call calls ih =>
    rw [performs, ih, moments, endHanded_cons, exhausted_perform, List.forall_mem_cons,
      or_and_right, and_assoc, or_left_comm, or_assoc]

end Exhausted

end TokenQueue

/-- A run that comes to the end of the input has had it handed out, and after
that nothing is ahead. -/
theorem Reader.run_exhausted {reader : Reader} {q q' : TokenQueue}
    {r : Except Failure (Option Statement)} (he : q.exhausted = false)
    (h : reader.run q = (r, q')) :
    (q'.exhausted = true → q'.lookahead = none) ∧ (r = .ok none → q'.exhausted = true) := by
  fun_induction Reader.run reader q with
  | case1 _ _ _ _ hn =>
    cases h
    simp [TokenQueue.exhausted_next_error hn, he]
  | case2 _ q t q₁ hn _ hk ih =>
    have hkind : t.kind ≠ .endOfInput := fun ht => Grammar.feed_endOfInput ht hk
    exact ih (by simp [TokenQueue.exhausted_next hn, he, hkind]) h
  | case3 _ _ _ _ hn _ hk =>
    cases h
    refine ⟨fun _ => TokenQueue.lookahead_next hn, fun hs => ?_⟩
    cases hs
    simp [TokenQueue.exhausted_next hn, Reader.feed_accept_none hk]
  | case4 _ _ _ _ hn _ taken =>
    cases h
    refine ⟨fun hq => ?_, by simp⟩
    cases taken with
    | true => exact TokenQueue.lookahead_next hn
    | false => simp [TokenQueue.putBack, TokenQueue.exhausted_next hn, he] at hq

namespace TokenQueue

inductive Request
  | read
  | clear
deriving DecidableEq, Repr

def conduct (q : TokenQueue) : List Request → List (Except Failure (Option Statement)) × TokenQueue
  | [] => ([], q)
  | .read :: requests =>
    let (answers, q') := q.read.2.conduct requests
    (q.read.1 :: answers, q')
  | .clear :: requests => q.clear.conduct requests

def Latched (q : TokenQueue) : Prop := q.exhausted = true → q.lookahead = none

section Latched

variable {q : TokenQueue}

theorem Latched.read (h : q.Latched) : q.read.2.Latched := by
  cases he : q.exhausted with
  | true =>
    rw [read_exhausted he]
    exact h
  | false =>
    rw [read_unexhausted he]
    exact (Reader.run_exhausted he rfl).1

theorem latched_ofInput (input : Input) : (ofInput input).Latched := fun _ => rfl

theorem latched_clear (q : TokenQueue) : q.clear.Latched := by
  unfold clear
  split
  next hl => exact fun _ => hl
  next t hl =>
    split
    next ht =>
      intro he
      simp [putBack, ht] at he
    next => exact fun _ => rfl

theorem exhausted_read (h : q.read.1 = .ok none) : q.read.2.exhausted = true := by
  cases he : q.exhausted with
  | true =>
    rw [read_exhausted he]
    exact he
  | false =>
    rw [read_unexhausted he] at h ⊢
    exact (Reader.run_exhausted he rfl).2 h

theorem conduct_exhausted (he : q.exhausted = true) (hl : q.lookahead = none)
    (requests : List Request) : ∀ r ∈ (q.conduct requests).1, r = .ok none := by
  induction requests generalizing q with
  | nil => simp [conduct]
  | cons request requests ih =>
    cases request with
    | read =>
      rw [conduct, read_exhausted he]
      exact List.forall_mem_cons.mpr ⟨rfl, ih he hl⟩
    | clear =>
      have hclear : q.clear = { q with scanner := q.scanner.clear } := by simp [clear, hl]
      rw [conduct, hclear]
      exact ih he hl

/-- The first answer that there is nothing more is the answer from then on. -/
theorem conduct_none (h : q.Latched) (requests : List Request)
    {before after : List (Except Failure (Option Statement))}
    (heq : (q.conduct requests).1 = before ++ .ok none :: after) : ∀ r ∈ after, r = .ok none := by
  induction requests generalizing q before with
  | nil => simp [conduct] at heq
  | cons request requests ih =>
    cases request with
    | read =>
      rcases List.cons_eq_append_iff.mp heq with ⟨_, hcons⟩ | ⟨rest, _, hrest⟩
      · obtain ⟨hnone, rfl⟩ := List.cons.inj hcons
        have he := exhausted_read hnone.symm
        exact conduct_exhausted he (h.read he) requests
      · exact ih h.read hrest
    | clear => exact ih (latched_clear q) heq

end Latched

structure Conserved (q : TokenQueue) (calls : List Call) : Prop where
  returned : ∀ before t after, calls = before ++ .putBack t :: after → q.Returned before t after
  kept : ∀ before after t, calls = before ++ .clear :: after →
    (q.performs before).lookahead = some t → t.kind = .endOfInput →
    (q.performs before).clear = putBack { q.performs before with lookahead := none } t
  account : q.Accounts (asks (q.moments calls)) (settled (q.moments calls)) (q.performs calls)
  dropped : ∀ t, .dropped t ∈ settled (q.moments calls) → t.kind ≠ .endOfInput
  exhausted : ∀ before after, calls = before ++ after →
    ((q.performs before).exhausted = true ↔ EndHanded (q.moments before))

theorem Orderly.conserved {q : TokenQueue} {calls : List Call} (h : q.Orderly calls)
    (he : q.exhausted = false) : q.Conserved calls where
  returned _ _ _ heq := h.returned heq
  kept before _ t _ hl ht := by
    simp only [clear, hl, if_pos ht]
    rfl
  account := h.account
  dropped _ ht := dropped_settled ht
  exhausted before _ _ := by simp [exhausted_performs, he]

end TokenQueue

namespace Descent

open TokenQueue

inductive Conducts : List Request → TokenQueue → List TokenQueue.Call →
    List (Except Failure (Option Statement)) → TokenQueue → Prop
  | nil (q : TokenQueue) : Conducts [] q [] [] q
  | read {requests : List Request} {q q₁ q' : TokenQueue} {calls others : List TokenQueue.Call}
      {r : Except Failure (Option Statement)} {answers : List (Except Failure (Option Statement))}
      (h : Parses q calls r q₁) (hr : Conducts requests q₁ others answers q') :
      Conducts (.read :: requests) q (calls ++ others) (r :: answers) q'
  | clear {requests : List Request} {q q' : TokenQueue} {calls : List TokenQueue.Call}
      {answers : List (Except Failure (Option Statement))}
      (hr : Conducts requests q.clear calls answers q') :
      Conducts (.clear :: requests) q (.clear :: calls) answers q'

section Conducts

variable {requests : List Request} {q q' q₂ : TokenQueue} {calls others : List TokenQueue.Call}
  {answers answers₂ : List (Except Failure (Option Statement))}

theorem Conducts.performs (h : Conducts requests q calls answers q') : q.performs calls = q' := by
  induction h with
  | nil => rfl
  | read h _ ih => rw [performs_append, h.performs, ih]
  | clear _ ih => exact ih

theorem Conducts.orderly (h : Conducts requests q calls answers q') : q.Orderly calls := by
  induction h with
  | nil q => exact .nil q
  | read h _ ih =>
    refine h.orderly.append ?_
    rw [h.performs]
    exact ih
  | clear _ ih => exact .alone nofun ih

theorem Conducts.unique (h : Conducts requests q calls answers q')
    (h' : Conducts requests q others answers₂ q₂) :
    calls = others ∧ answers = answers₂ ∧ q' = q₂ := by
  induction h generalizing others answers₂ q₂ with
  | nil =>
    cases h'
    exact ⟨rfl, rfl, rfl⟩
  | read h _ ih =>
    cases h' with
    | read h₂ hr =>
      obtain ⟨rfl, rfl, rfl⟩ := h.unique h₂
      obtain ⟨rfl, rfl, rfl⟩ := ih hr
      exact ⟨rfl, rfl, rfl⟩
  | clear _ ih =>
    cases h' with
    | clear hr =>
      obtain ⟨rfl, rfl, rfl⟩ := ih hr
      exact ⟨rfl, rfl, rfl⟩

/-- The requests can be carried out, with the answers of the queue's own reader. -/
theorem conducts_conduct (requests : List Request) (q : TokenQueue) :
    ∃ calls, Conducts requests q calls (q.conduct requests).1 (q.conduct requests).2 := by
  induction requests generalizing q with
  | nil => exact ⟨[], .nil q⟩
  | cons request requests ih =>
    cases request with
    | read =>
      obtain ⟨calls, hread⟩ := parses_read q
      obtain ⟨others, hrest⟩ := ih q.read.2
      exact ⟨calls ++ others, .read hread hrest⟩
    | clear =>
      obtain ⟨calls, hrest⟩ := ih q.clear
      exact ⟨.clear :: calls, .clear hrest⟩

end Conducts

/-- Whatever the input is, and whatever is asked for: there is one sequence of
calls that answers the requests, failures included. It puts a token back only
with nothing ahead; every token that was scanned was handed out once, in order,
or dropped with its line, or is still ahead; the end of the input is never
dropped, and the queue is exhausted when it was handed out and not put back;
and after the answer that there is nothing more no other answer comes. -/
theorem tokens_conserved (input : Input) (requests : List Request) :
    ∃ calls, (∀ others answers q', Conducts requests (.ofInput input) others answers q' ↔
        others = calls ∧ (TokenQueue.ofInput input).conduct requests = (answers, q')) ∧
      ((TokenQueue.ofInput input).conduct requests).2 =
        (TokenQueue.ofInput input).performs calls ∧
      (TokenQueue.ofInput input).Conserved calls ∧
      ∀ before after, ((TokenQueue.ofInput input).conduct requests).1 =
        before ++ .ok none :: after → ∀ r ∈ after, r = .ok none := by
  obtain ⟨calls, hcalls⟩ := conducts_conduct requests (.ofInput input)
  refine ⟨calls, fun others answers q' => ⟨fun h => ?_, ?_⟩, hcalls.performs.symm,
    hcalls.orderly.conserved rfl, fun _ _ => conduct_none (latched_ofInput input) requests⟩
  · obtain ⟨rfl, rfl, rfl⟩ := h.unique hcalls
    exact ⟨rfl, rfl⟩
  · rintro ⟨rfl, heq⟩
    rwa [heq] at hcalls

end Descent

end TinyShell
