import TinyShell.Proofs.Grammar.Shape
import TinyShell.Proofs.Lines.Ending
import TinyShell.Proofs.Tokens.Lexemes

/-!
# Where a syntax error is found

What a reader still waits for can always be given to it: a word where something
is missing, and parentheses for those that are open. So the tokens before the
one that is rejected begin a statement, and with it they begin none. Nothing
has been scanned behind it by then.
-/

set_option autoImplicit false

namespace TinyShell

namespace Grammar

open Reader

def Writable (t : Token) : Prop := Spelled t.kind t.text

def Completable (reader : Reader) : Prop :=
  ∃ us t last s, (∀ u ∈ us ++ [t], Writable u) ∧ reader.after us = some last ∧
    last.feed t = .accept (some s)

section Completable

variable {reader next : Reader} {level : Level} {outer : List Level} {t : Token}

theorem completable_shift (ht : Writable t) (h : reader.feed t = .shift next)
    (hn : Completable next) : Completable reader := by
  obtain ⟨us, u, last, s, hu, ha, hf⟩ := hn
  exact ⟨t :: us, u, last, s, List.forall_mem_cons.mpr ⟨ht, hu⟩, (after_cons h us).trans ha, hf⟩

theorem completable_accept {s : Statement} (ht : Writable t)
    (h : reader.feed t = .accept (some s)) : Completable reader :=
  ⟨[], t, reader, s, List.forall_mem_singleton.mpr ht, rfl, h⟩

def aWord : Token := ⟨.command, ['a'], ⟨1, 1⟩⟩

def aNewline : Token := ⟨.newline, ['\n'], ⟨1, 1⟩⟩

def aParen : Token := ⟨.rightParen, [')'], ⟨1, 1⟩⟩

theorem aWord_writable : Writable aWord :=
  .command (by simp [aWord]) (List.forall_mem_singleton.mpr (by decide))

theorem aNewline_writable : Writable aNewline := .plain (by simp [aNewline, plainOperators])

theorem aParen_writable : Writable aParen := .plain (by simp [aParen, plainOperators])

theorem completed_words (head : Token) (latest : List Token) (level : Level)
    (outer : List Level) : Completed (.inside (.words head latest) level outer)
      (level.negate (.atom (.ofWords head latest))) { level with negations := 0 } outer := by
  intro t ht
  simp [feed, onStage, ht]

/-- After an operand the scopes that are open are closed one by one, and then
the line ends. -/
theorem completable_completed {s : Statement} (h : Completed reader s level outer) :
    Completable reader := by
  induction outer generalizing reader s level with
  | nil =>
    have hend : reader.feed aNewline = .accept (some (level.close (level.closeLogical s))) := by
      rw [h aNewline rfl, onFollow_scope (.inl (.inr rfl))]
      rfl
    exact completable_accept aNewline_writable hend
  | cons parent others ih =>
    have hclose : reader.feed aParen =
        closeGroup (level.close (level.closeLogical s)) parent others := by
      rw [h aParen rfl, onFollow_scope (.inr (.inr rfl))]
      rfl
    exact completable_shift aParen_writable hclose (ih (completed_follow _ _ others))

theorem completable_word
    (h : reader.feed aWord = .shift (.inside (.words aWord []) level outer)) :
    Completable reader :=
  completable_shift aWord_writable h (completable_completed (completed_words _ _ level outer))

theorem completable_enters (h : Enters reader level outer) : Completable reader :=
  completable_word (h aWord rfl)

theorem completable_inside (stage : Stage) (level : Level) (outer : List Level) :
    Completable (.inside stage level outer) := by
  cases stage with
  | chain spread => exact completable_enters (enters_chain spread level outer)
  | operand => exact completable_word rfl
  | words head latest => exact completable_completed (completed_words head latest level outer)
  | target arrow left =>
    exact completable_shift aWord_writable rfl (completable_completed (completed_follow _ _ _))
  | follow s => exact completable_completed (completed_follow s level outer)
  | separated s => exact completable_accept aNewline_writable rfl
  | groupSeparated s => exact completable_enters (enters_groupSeparated s level outer)

theorem completable (reader : Reader) : Completable reader := by
  cases reader with
  | idle => exact completable_enters enters_idle
  | inside stage level outer => exact completable_inside stage level outer

end Completable

section Prefix

variable {last : Reader} {w : List Token} {t u : Token} {expected : Text} {taken : Bool}

theorem significant_append (w us : List Token) : significant (w ++ us) =
    if significant w = [] then significant us else significant w ++ us := by
  rw [significant, List.dropWhile_append, significant, significant]
  simp only [List.isEmpty_iff]

theorem begins_of_after (ha : idle.after w = some last) :
    ∃ us s, (∀ u ∈ us, Writable u) ∧ Derives .statement (significant w ++ us) s := by
  obtain ⟨us, t, final, s, hw, hus, hf⟩ := completable last
  have hafter : idle.after (w ++ us) = some final := (after_append ha us).trans hus
  rcases accepted_of_after hafter hf with ⟨_, _, ho⟩ | ⟨lead, body, s', heq, hlead, _, hd⟩
  · cases ho
  · obtain ⟨first, rest, rfl, hfirst, _⟩ := derives_first_leads hd
    have hbody : significant (w ++ (us ++ [t])) = first :: rest := by
      rw [← List.append_assoc, heq]
      exact (leading_append hlead hfirst).2
    rw [significant_append] at hbody
    split at hbody
    next hnil =>
      refine ⟨first :: rest, s', fun u hu => hw u ?_, by rwa [hnil]⟩
      rw [← hbody] at hu
      exact (List.dropWhile_suffix _).mem hu
    next => exact ⟨us ++ [t], s', hw, by rwa [hbody]⟩

theorem begins_none_of_reject (ha : idle.after w = some last)
    (hf : last.feed t = .reject expected taken) (us : List Token) (s : Statement) :
    ¬ Derives .statement (significant w ++ t :: us) s := by
  intro hd
  obtain ⟨w', t', final, heq, ha', hf'⟩ := after_of_derives (leads_of_leading w) hd
  rw [← List.append_assoc, leading_significant] at heq
  rcases List.eq_nil_or_concat us with rfl | ⟨init, u, rfl⟩
  · obtain ⟨rfl, ht⟩ := List.append_inj' heq rfl
    cases ht
    rw [ha] at ha'
    cases ha'
    rw [hf] at hf'
    cases hf'
  · have hsplit : w ++ t :: (init ++ [u]) = (w ++ t :: init) ++ [u] := by simp
    rw [List.concat_eq_append, hsplit] at heq
    obtain ⟨rfl, _⟩ := List.append_inj' heq rfl
    rw [after_append ha] at ha'
    simp only [Reader.after, hf] at ha'
    cases ha'

/-- A token that is rejected is none of those that are skipped before a
statement. -/
theorem significant_of_reject (ha : idle.after w = some last)
    (hf : last.feed t = .reject expected taken) :
    significant (w ++ [t]) = significant w ++ [t] := by
  rw [significant_append]
  split
  next hnil =>
    have hleads : ∀ u ∈ w, leads u = true := by
      have hw := leads_of_leading w
      have heq := leading_significant w
      rw [hnil, List.append_nil] at heq
      rwa [heq] at hw
    rw [after_leading hleads] at ha
    cases ha
    have ht : leads t = false := by
      rw [Bool.eq_false_iff]
      intro hl
      rw [feed_idle_leads hl] at hf
      cases hf
    rw [hnil]
    exact (@leading_append [] [] t nofun ht).2
  next => rfl

end Prefix

end Grammar

namespace Reader

variable {left : Option Statement} {level : Level} {outer : List Level} {t u : Token}
  {expected : Text} {taken : Bool}

theorem onRedirection_reject
    (h : onRedirection left level outer t = some (.reject expected taken)) : t.Unreadable := by
  unfold onRedirection awaitTarget at h
  split at h
  next hk =>
    split at h
    next ho => exact .output (.inl hk) ho
    next => cases h
    next => cases h
  next hk =>
    split at h
    next ho => exact .output (.inr hk) ho
    next => cases h
    next => cases h
  next => cases h
  next => cases h
  next => cases h
  next hk =>
    split at h
    next ho => exact .merge hk ho
    next => cases h
  next => cases h

theorem onRedirection_none :
    onRedirection left level outer t = none ↔ t.kind.isRedirection = false := by
  unfold onRedirection awaitTarget
  cases t.kind with
  | overwrite | append =>
    simp only [TokenKind.isRedirection]
    split <;> simp
  | mergeStream =>
    simp only [TokenKind.isRedirection]
    split <;> simp
  | _ => simp [TokenKind.isRedirection]

theorem onRedirection_kind (h : onRedirection left level outer t = none)
    (hu : u.kind = t.kind) : onRedirection left level outer u = none := by
  rw [onRedirection_none, hu]
  exact onRedirection_none.mp h

def Bars (f : Token → Verdict) (t : Token) : Prop :=
  ∀ expected taken, f t = .reject expected taken →
    t.Unreadable ∨ ∀ u : Token, u.kind = t.kind → f u = .reject expected taken

theorem onOperand_bars : Bars (onOperand level outer) t := by
  intro expected taken h
  refine .inr fun u hu => ?_
  unfold onOperand at h ⊢
  rw [hu]
  split at h <;> cases h
  next => simp_all

theorem onChain_bars : Bars (onChain level outer) t := by
  intro expected taken h
  unfold onChain at h ⊢
  cases hr : onRedirection none level outer t with
  | none =>
    rw [hr] at h
    refine (onOperand_bars expected taken h).imp id fun hall u hu => ?_
    rw [onRedirection_kind hr hu]
    exact hall u hu
  | some verdict =>
    rw [hr] at h
    cases h
    exact .inl (onRedirection_reject hr)

theorem onFollow_bars {s : Statement} : Bars (onFollow s level outer) t := by
  intro expected taken h
  unfold onFollow onScope at h ⊢
  cases hr : onRedirection (some s) level outer t with
  | none =>
    rw [hr] at h
    refine .inr fun u hu => ?_
    rw [onRedirection_kind hr hu, hu]
    exact h
  | some verdict =>
    rw [hr] at h
    cases h
    exact .inl (onRedirection_reject hr)

theorem onStage_bars {stage : Stage} : Bars (onStage stage level outer) t := by
  intro expected taken h
  cases stage with
  | chain spread =>
    simp only [onStage] at h ⊢
    split at h
    next => cases h
    next hn =>
      refine (onChain_bars expected taken h).imp id fun hall u hu => ?_
      rw [hu, if_neg hn]
      exact hall u hu
  | operand => exact onOperand_bars expected taken h
  | words head latest =>
    simp only [onStage] at h ⊢
    split at h
    next => cases h
    next hn =>
      refine (onFollow_bars expected taken h).imp id fun hall u hu => ?_
      rw [hu, if_neg hn]
      exact hall u hu
  | target arrow left =>
    refine .inr fun u hu => ?_
    simp only [onStage] at h ⊢
    split at h
    next => cases h
    next hn => rw [hu, if_neg hn, ← h]
  | follow s => exact onFollow_bars expected taken h
  | separated s =>
    simp only [onStage] at h ⊢
    split at h
    next => cases h
    next => cases h
    next hn he =>
      refine (onChain_bars expected taken h).imp id fun hall u hu => ?_
      rw [hu]
      split
      next hk => exact absurd hk hn
      next hk => exact absurd hk he
      next => exact hall u hu
  | groupSeparated s =>
    simp only [onStage] at h ⊢
    split at h
    next => cases h
    next => cases h
    next hn hp =>
      refine (onChain_bars expected taken h).imp id fun hall u hu => ?_
      rw [hu]
      split
      next hk => exact absurd hk hn
      next hk => exact absurd rfl (hp _ _ hk)
      next => exact hall u hu

theorem feed_bars (reader : Reader) : Bars reader.feed t := by
  cases reader with
  | idle =>
    intro expected taken h
    simp only [feed] at h ⊢
    split at h
    next => cases h
    next => cases h
    next => cases h
    next hn hs he =>
      refine (onChain_bars expected taken h).imp id fun hall u hu => ?_
      rw [hu]
      split
      next hk => exact absurd hk hn
      next hk => exact absurd hk hs
      next hk => exact absurd hk he
      next => exact hall u hu
  | inside stage level outer => exact onStage_bars

end Reader

def Scanner.after : Nat → Scanner → Scanner
  | 0, s => s
  | n+1, s => after n s.next.2

namespace TokenQueue

variable {q q' : TokenQueue} {t : Token} {ts : List Token}

def Genuine (q : TokenQueue) : Prop := ∀ t, q.lookahead = some t → t.Scanned

theorem next_genuine {r : Except Failure Token} (h : q.Genuine) (hn : q.next = (r, q')) :
    q'.Genuine ∧ ∀ t, r = .ok t → t.Scanned := by
  cases hl : q.lookahead with
  | some t =>
    rw [next_held hl] at hn
    cases hn
    refine ⟨nofun, fun u hu => ?_⟩
    cases hu
    exact h t hl
  | none =>
    obtain ⟨hs, hfree, _⟩ := next_scanned hl hn
    refine ⟨fun t ht => ?_, fun t ht => ?_⟩
    · rw [hfree] at ht
      cases ht
    · subst ht
      exact Scanner.next_scanned hs

theorem genuine_invariant : Invariant Genuine where
  next := fun h hn => (next_genuine h hn).1
  putBack := by
    intro reader q q' t expected h hn _ u hu
    cases hu
    exact (next_genuine h hn).2 t rfl
  clear := by
    intro q h t ht
    unfold clear at ht
    split at ht
    next hl =>
      rw [hl] at ht
      cases ht
    next u hl =>
      split at ht
      next =>
        cases ht
        exact h _ hl
      next => cases ht

theorem genuine_ofInput (input : Input) : (ofInput input).Genuine := nofun

theorem hands_genuine (h : q.Genuine) (hh : q.Hands ts q') : ∀ t ∈ ts, t.Scanned := by
  induction hh with
  | nil => nofun
  | cons hn _ ih =>
    obtain ⟨hgenuine, ht⟩ := next_genuine h hn
    exact List.forall_mem_cons.mpr ⟨ht _ rfl, ih hgenuine⟩

theorem hands_free (h : q.Hands (ts ++ [t]) q') : q'.lookahead = none := by
  obtain ⟨q₁, _, hlast⟩ := Grammar.hands_split h
  cases hlast with
  | cons hn hs =>
    cases hs
    exact lookahead_next hn

theorem hands_scanned (hl : q.lookahead = none) (h : q.Hands ts q') :
    q.scanner.answers ts.length = ts.map .ok ∧ q'.scanner = q.scanner.after ts.length := by
  induction h with
  | nil => exact ⟨rfl, rfl⟩
  | @cons q q₁ _ t ts hn _ ih =>
    obtain ⟨hs, hfree, _⟩ := next_scanned hl hn
    obtain ⟨hanswers, hafter⟩ := ih hfree
    simp only [List.length_cons, Scanner.answers, Scanner.after, hs, hanswers, List.map_cons]
    exact ⟨trivial, hafter⟩

/-- Besides the token that was held back, only those that were handed out have
been scanned. -/
theorem hands_calls (hne : ts ≠ []) (h : q.Hands ts q') : ∃ calls,
    q.lookahead.toList.map .ok ++ q.scanner.answers calls = ts.map .ok ∧
      q'.scanner = q.scanner.after calls := by
  cases hl : q.lookahead with
  | none => exact ⟨ts.length, hands_scanned hl h⟩
  | some t =>
    cases h with
    | nil => exact absurd rfl hne
    | @cons _ _ _ u ts hn hs =>
      rw [next_held hl] at hn
      cases hn
      obtain ⟨hanswers, hafter⟩ := hands_scanned rfl hs
      exact ⟨ts.length, congrArg (Except.ok t :: ·) hanswers, hafter⟩

end TokenQueue

namespace Grammar

open Reader TokenQueue

variable {q q' : TokenQueue} {p : Position} {kind : TokenKind} {expected : Text}

/-- A run that finds a token out of place has shifted all tokens before it. -/
theorem reject_of_run {reader : Reader}
    (h : reader.run q = (.error (.grammar p kind expected), q')) :
    ∃ w t last taken q₁, q.Hands (w ++ [t]) q₁ ∧ reader.after w = some last ∧
      last.feed t = .reject expected taken ∧ t.position = p ∧ t.kind = kind ∧
      q' = if taken then q₁ else q₁.putBack t := by
  fun_induction Reader.run reader q with
  | case1 _ _ _ _ hn =>
    cases h
    have hlexical := Failure.lexical_of_character (TokenQueue.character_of_next hn)
    exact absurd rfl (hlexical.ne_grammar p kind expected)
  | case2 reader q t q₁ hn next hk ih =>
    obtain ⟨w, u, last, taken, q₂, hw, ha, hrest⟩ := ih h
    exact ⟨t :: w, u, last, taken, q₂, .cons hn hw, (after_cons hk w).trans ha, hrest⟩
  | case3 => cases h
  | case4 reader q t q₁ hn expected taken hk =>
    cases h
    exact ⟨[], t, reader, taken, q₁, .cons hn (.nil _), rfl, hk, rfl, rfl, rfl⟩

/-- Whatever was called before: a token that is found out of place is the first
one with which no statement can begin. Tokens can be written behind those before
it that make a statement of them. With it there are none, and none with another
of its kind, unless it is a redirection operator with too many digits. It is the
last token that was scanned, and if one is held back it is this. -/
theorem rejected_earliest {input : Input} (hl : (TokenQueue.ofInput input).Later q)
    (h : q.read = (.error (.grammar p kind expected), q')) :
    ∃ (ts body : List Token) (t : Token) (calls : Nat),
      significant ts = body ++ [t] ∧ t.position = p ∧ t.kind = kind ∧
      (∃ us s, (∀ u ∈ us, Writable u) ∧ Derives .statement (body ++ us) s) ∧
      (∀ us s, ¬ Derives .statement (body ++ t :: us) s) ∧
      ((∀ u : Token, u.kind = kind → ∀ us s, ¬ Derives .statement (body ++ u :: us) s) ∨
        kind.isRedirection = true ∧ Operator.Oversized t.text) ∧
      q.lookahead.toList.map .ok ++ q.scanner.answers calls = ts.map .ok ∧
      q'.scanner = q.scanner.after calls ∧ (q'.lookahead = none ∨ q'.lookahead = some t) := by
  have hgenuine : q.Genuine := genuine_invariant.later (genuine_ofInput input) hl
  obtain ⟨w, t, last, taken, q₁, hw, ha, hf, rfl, rfl, rfl⟩ :=
    reject_of_run (run_of_read h (by simp))
  obtain ⟨calls, hanswers, hafter⟩ := hands_calls (by simp) hw
  refine ⟨w ++ [t], significant w, t, calls, significant_of_reject ha hf, rfl, rfl,
    begins_of_after ha, begins_none_of_reject ha hf, ?_, hanswers, ?_, ?_⟩
  · rcases last.feed_bars expected taken hf with hu | hall
    · exact .inr ((hands_genuine hgenuine hw t (by simp)).oversized hu)
    · exact .inl fun u hu => begins_none_of_reject ha (hall u hu)
  · rw [← hafter]
    cases taken <;> rfl
  · cases taken with
    | true => exact .inl (hands_free hw)
    | false => exact .inr rfl

/-- The text `a | (b`, newline, `&& c`: a group goes on to a newline, and then
to no connective. -/
theorem rejected_earliest_group : ∃ (q' : TokenQueue) (body : List Token) (t : Token),
    (TokenQueue.ofInput (.ofBytes [97, 32, 124, 32, 40, 98, 10, 38, 38, 32, 99, 10])).read =
      (.error (.grammar ⟨2, 1⟩ .and expectCommand), q') ∧
    t.position = ⟨2, 1⟩ ∧ t.kind = .and ∧
    (∃ us s, (∀ u ∈ us, Writable u) ∧ Derives .statement (body ++ us) s) ∧
    ∀ u : Token, u.kind = .and → ∀ us s, ¬ Derives .statement (body ++ u :: us) s := by
  have hfailed : (match (TokenQueue.ofInput
      (.ofBytes [97, 32, 124, 32, 40, 98, 10, 38, 38, 32, 99, 10])).read.1 with
      | .error failure => failure == .grammar ⟨2, 1⟩ .and expectCommand
      | .ok _ => false) = true := by
    decide +kernel
  cases hread : (TokenQueue.ofInput
      (.ofBytes [97, 32, 124, 32, 40, 98, 10, 38, 38, 32, 99, 10])).read with
  | mk answer q' =>
    rw [hread] at hfailed
    cases answer with
    | ok o => cases hfailed
    | error failure =>
      obtain rfl := eq_of_beq hfailed
      obtain ⟨_, body, t, _, _, hp, hk, hbegins, _, hnone, _⟩ := rejected_earliest .now hread
      refine ⟨q', body, t, rfl, hp, hk, hbegins, hnone.resolve_right fun h => ?_⟩
      cases h.1

end Grammar

end TinyShell
