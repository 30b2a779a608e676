import TinyShell.Proofs.Grammar.Completeness
import TinyShell.Proofs.Grammar.Soundness

/-!
# What is read from a queue

Reading a statement from a queue of tokens passes over the newlines and
semicolons before it and then accepts exactly the token sequences of the
grammar. The grammar is unambiguous, and no statement of it is the beginning
of another, so the statement and the place where it ends are determined.
-/

set_option autoImplicit false

namespace TinyShell

inductive TokenQueue.Hands : TokenQueue → List Token → TokenQueue → Prop
  | nil (q : TokenQueue) : Hands q [] q
  | cons {q q₁ q₂ : TokenQueue} {t : Token} {ts : List Token} (h : q.next = (.ok t, q₁))
      (hs : Hands q₁ ts q₂) : Hands q (t :: ts) q₂

structure TokenQueue.Delivers (q : TokenQueue) (ts : List Token) : Prop where
  unexhausted : q.exhausted = false
  handed : ∃ q', q.Hands ts q'
  ended : ts.getLast?.map Token.kind = some .endOfInput

namespace Grammar

open TokenQueue Reader

theorem hands_split {q q₂ : TokenQueue} {ts us : List Token} (h : q.Hands (ts ++ us) q₂) :
    ∃ q₁, q.Hands ts q₁ ∧ q₁.Hands us q₂ := by
  induction ts generalizing q with
  | nil => exact ⟨q, .nil q, h⟩
  | cons t ts ih =>
    cases h with
    | cons hn hs =>
      obtain ⟨q₁, h₁, h₂⟩ := ih hs
      exact ⟨q₁, .cons hn h₁, h₂⟩

theorem hands_comparable {q q₁ q₂ : TokenQueue} {ts us : List Token} (h : q.Hands ts q₁)
    (h' : q.Hands us q₂) : (∃ rest, us = ts ++ rest) ∨ ∃ t rest, ts = us ++ t :: rest := by
  induction h generalizing us with
  | nil => exact .inl ⟨us, rfl⟩
  | @cons _ _ _ t ts hn _ ih =>
    cases h' with
    | nil => exact .inr ⟨t, ts, rfl⟩
    | cons hn' hs =>
      rw [hn] at hn'
      cases hn'
      rcases ih hs with ⟨rest, rfl⟩ | ⟨u, rest, rfl⟩
      · exact .inl ⟨rest, rfl⟩
      · exact .inr ⟨u, rest, rfl⟩

theorem hands_unique {q q₁ q₂ : TokenQueue} {ts : List Token} (h : q.Hands ts q₁)
    (h' : q.Hands ts q₂) : q₁ = q₂ := by
  induction h with
  | nil => cases h'; rfl
  | cons hn _ ih =>
    cases h' with
    | cons hn' hs =>
      rw [hn] at hn'
      cases hn'
      exact ih hs

theorem hands_size {q q' : TokenQueue} {ts : List Token} (h : q.Hands ts q') :
    q'.size + ts.length ≤ q.size := by
  induction h with
  | nil => exact Nat.le_refl _
  | cons hn _ ih =>
    have hlt := TokenQueue.size_next_lt hn
    simp only [List.length_cons]
    omega

theorem run_next {q q₁ : TokenQueue} {t : Token} (h : q.next = (.ok t, q₁)) (reader : Reader) :
    reader.run q = match reader.feed t with
      | .shift next => next.run q₁
      | .accept statement => (.ok statement, q₁)
      | .reject expected taken =>
        (.error (.grammar t.position t.kind expected), if taken then q₁ else q₁.putBack t) := by
  rw [Reader.run]
  split
  next hn => rw [h] at hn; cases hn
  next hn => rw [h] at hn; cases hn; rfl

theorem run_of_after {q q' : TokenQueue} {reader last : Reader} {w : List Token} {t : Token}
    {o : Option Statement} (h : q.Hands (w ++ [t]) q') (ha : reader.after w = some last)
    (hf : last.feed t = .accept o) : reader.run q = (.ok o, q') := by
  induction w generalizing q reader with
  | nil =>
    cases ha
    cases h with
    | cons hn hs =>
      cases hs
      rw [run_next hn, hf]
  | cons u w ih =>
    cases h with
    | cons hn hs =>
      simp only [Reader.after] at ha
      split at ha
      next hk =>
        rw [run_next hn, hk]
        exact ih hs ha
      next => cases ha

theorem after_of_run {q q' : TokenQueue} {reader : Reader} {o : Option Statement}
    (h : reader.run q = (.ok o, q')) : ∃ w t last, q.Hands (w ++ [t]) q' ∧
      reader.after w = some last ∧ last.feed t = .accept o := by
  fun_induction Reader.run reader q with
  | case1 => cases h
  | case2 reader q t q₁ hn next hk ih =>
    obtain ⟨w, u, last, hw, ha, hf⟩ := ih h
    exact ⟨t :: w, u, last, .cons hn hw, (after_cons hk w).trans ha, hf⟩
  | case3 reader q t q₁ hn statement hk =>
    cases h
    exact ⟨[], t, reader, .cons hn (.nil _), rfl, hk⟩
  | case4 => cases h

theorem feed_endOfInput {reader next : Reader} {t : Token} (ht : t.kind = .endOfInput) :
    reader.feed t ≠ .shift next := by
  cases reader with
  | idle => simp [feed, ht]
  | inside stage level outer =>
    have chain (level : Level) : onChain level outer t ≠ .shift next := by
      simp [onChain, onRedirection, onOperand, ht]
    have follow (s : Statement) (level : Level) : onFollow s level outer t ≠ .shift next := by
      cases outer <;> simp [onFollow, onRedirection, Connective.ofKind?, onScope, ht]
    cases stage with
    | chain spread => simpa [feed, onStage, ht] using chain level
    | operand => simp [feed, onStage, onOperand, ht]
    | words head latest => simpa [feed, onStage, ht, TokenKind.isWord] using follow _ _
    | target arrow left => simp [feed, onStage, ht, TokenKind.isWord]
    | follow s => exact follow s level
    | separated s => simp [feed, onStage, ht]
    | groupSeparated s => simpa [feed, onStage, ht] using chain _

theorem not_endOfInput_of_after {reader last : Reader} {w : List Token}
    (h : reader.after w = some last) : ∀ t ∈ w, t.kind ≠ .endOfInput := by
  induction w generalizing reader with
  | nil => simp
  | cons u w ih =>
    simp only [Reader.after] at h
    split at h
    next hk =>
      intro t ht
      rcases List.mem_cons.mp ht with rfl | ht
      · exact fun he => feed_endOfInput he hk
      · exact ih h t ht
    next => cases h

theorem feed_idle_leads {t : Token} (h : leads t = true) : idle.feed t = .shift .idle := by
  rcases (Bool.or_eq_true _ _).mp h with h | h <;> simp [feed, eq_of_beq h]

theorem after_leading {lead : List Token} (h : ∀ t ∈ lead, leads t = true) :
    idle.after lead = some .idle := by
  induction lead with
  | nil => rfl
  | cons t lead ih =>
    rw [after_cons (feed_idle_leads (h t (by simp)))]
    exact ih fun u hu => h u (by simp [hu])

/-- Inside a statement, the tokens shifted are added to those read before. -/
theorem reached_of_after {reader last : Reader} {w us : List Token} (h : Reached reader w)
    (hi : reader ≠ .idle) (ha : reader.after us = some last) :
    Reached last (w ++ us) ∧ last ≠ .idle := by
  induction us generalizing reader w with
  | nil =>
    cases ha
    exact ⟨by simpa using h, hi⟩
  | cons t us ih =>
    simp only [Reader.after] at ha
    split at ha
    next next hk =>
      have hj := feed_justified h (t := t) (.inr hi)
      rw [hk] at hj
      have hn : next ≠ .idle := by
        rintro rfl
        have hnil : w ++ [t] = [] := hj
        simp at hnil
      simpa using ih hj hn ha
    next => cases ha

/-- What a reader accepts: the end of the input after nothing, or a statement
after tokens that are passed over. -/
theorem accepted_of_after {last : Reader} {w : List Token} {t : Token} {o : Option Statement}
    (ha : idle.after w = some last) (hf : last.feed t = .accept o) :
    ((∀ u ∈ w, leads u = true) ∧ t.kind = .endOfInput ∧ o = none) ∨
    ∃ lead body s, w ++ [t] = lead ++ body ∧ (∀ u ∈ lead, leads u = true) ∧ o = some s ∧
      Derives .statement body s := by
  have settled {body : List Token} (hj : Justified (.accept o) body) :
      ∃ s, o = some s ∧ Derives .statement body s := by
    cases o with
    | none => exact hj.elim
    | some s => exact ⟨s, rfl, hj⟩
  induction w with
  | nil =>
    cases ha
    by_cases hl : leads t = true
    · rw [feed_idle_leads hl] at hf
      cases hf
    by_cases hk : t.kind = .endOfInput
    · have ho : o = none := by simpa [feed, hk, eq_comm] using hf
      exact .inl ⟨by simp, hk, ho⟩
    have hj := feed_justified (show Reached .idle [] from rfl) (.inl ⟨by simpa using hl, hk⟩)
    rw [hf] at hj
    obtain ⟨s, rfl, hd⟩ := settled hj
    exact .inr ⟨[], [t], s, rfl, by simp, rfl, hd⟩
  | cons u w ih =>
    have hu : u.kind ≠ .endOfInput := not_endOfInput_of_after ha u (by simp)
    simp only [Reader.after] at ha
    split at ha
    next next hk =>
      by_cases hl : leads u = true
      · rw [feed_idle_leads hl] at hk
        cases hk
        have cons {lead : List Token} (hlead : ∀ v ∈ lead, leads v = true) :
            ∀ v ∈ u :: lead, leads v = true := by
          intro v hv
          rcases List.mem_cons.mp hv with rfl | hv
          · exact hl
          · exact hlead v hv
        rcases ih ha with ⟨hw, he, ho⟩ | ⟨lead, body, s, heq, hlead, ho, hd⟩
        · exact .inl ⟨cons hw, he, ho⟩
        · exact .inr ⟨u :: lead, body, s, by rw [List.cons_append, heq]; rfl, cons hlead, ho, hd⟩
      · have hj := feed_justified (show Reached .idle [] from rfl) (.inl ⟨by simpa using hl, hu⟩)
        rw [hk] at hj
        have hn : next ≠ .idle := by
          rintro rfl
          cases hj
        obtain ⟨hr, hlast⟩ := reached_of_after hj hn ha
        have hend := feed_justified hr (t := t) (.inr hlast)
        rw [hf] at hend
        obtain ⟨s, rfl, hd⟩ := settled hend
        exact .inr ⟨[], u :: (w ++ [t]), s, rfl, by simp, rfl, by simpa using hd⟩
    next => cases ha

theorem enters_idle : Enters .idle Level.empty [] := by
  intro t ht
  simp only [feed]
  split
  next hk => exact absurd hk (ne_of_starts ht rfl)
  next hk => exact absurd hk (ne_of_starts ht rfl)
  next hk => exact absurd hk (ne_of_starts ht rfl)
  next => rfl

theorem after_of_derives {lead body : List Token} {s : Statement}
    (hl : ∀ t ∈ lead, leads t = true) (h : Derives .statement body s) :
    ∃ w t last, lead ++ body = w ++ [t] ∧ idle.after w = some last ∧
      last.feed t = .accept (some s) := by
  obtain ⟨w, t, last, rfl, ha, hf⟩ := runs_of_derives h .idle [] enters_idle
  exact ⟨lead ++ w, t, last, by simp, (after_append (after_leading hl) w).trans ha, hf⟩

def leading (ts : List Token) : List Token := ts.takeWhile leads

def significant (ts : List Token) : List Token := ts.dropWhile leads

theorem leading_significant (ts : List Token) : leading ts ++ significant ts = ts :=
  List.takeWhile_append_dropWhile

theorem leads_of_leading (ts : List Token) : ∀ t ∈ leading ts, leads t = true := by
  intro t ht
  exact List.all_eq_true.mp List.all_takeWhile t ht

theorem leading_append {lead rest : List Token} {t : Token}
    (hl : ∀ u ∈ lead, leads u = true) (ht : leads t = false) :
    leading (lead ++ t :: rest) = lead ∧ significant (lead ++ t :: rest) = t :: rest := by
  constructor
  · rw [leading, List.takeWhile_append_of_pos hl]
    simp [ht]
  · rw [significant, List.dropWhile_append_of_pos hl]
    simp [ht]

theorem derives_first_leads {ts : List Token} {s : Statement} (h : Derives .statement ts s) :
    ∃ t rest, ts = t :: rest ∧ leads t = false ∧ t.kind ≠ .endOfInput := by
  obtain ⟨t, rest, rfl, ht⟩ := derives_first h (by simp)
  have hn : t.kind ≠ .newline := ne_of_starts ht rfl
  have hs : t.kind ≠ .semicolon := ne_of_starts ht rfl
  exact ⟨t, rest, rfl, by simp [leads, hn, hs], ne_of_starts ht rfl⟩

/-- What is read comes from tokens that were handed out, and those before the
statement are passed over. -/
theorem handed_of_read {q q' : TokenQueue} {s : Statement} (h : q.read = (.ok (some s), q')) :
    ∃ lead body, q.Hands (lead ++ body) q' ∧ (∀ t ∈ lead, leads t = true) ∧
      Derives .statement body s := by
  unfold TokenQueue.read at h
  split at h
  next => cases h
  next =>
    obtain ⟨w, t, last, hh, ha, hf⟩ := after_of_run h
    rcases accepted_of_after ha hf with ⟨_, _, ho⟩ | ⟨lead, body, _, heq, hlead, ho, hd⟩
    · cases ho
    · cases ho
      rw [heq] at hh
      exact ⟨lead, body, hh, hlead, hd⟩

/-- Whatever has come before it, a statement that is read is one of the grammar. -/
theorem statement_of_read {q q' : TokenQueue} {s : Statement}
    (h : q.read = (.ok (some s), q')) : ∃ w, Derives .statement w s := by
  obtain ⟨_, body, _, _, hd⟩ := handed_of_read h
  exact ⟨body, hd⟩

section Delivered

variable {q : TokenQueue} {ts : List Token}

theorem read_delivers (h : q.Delivers ts) : q.read = idle.run q := by
  simp [TokenQueue.read, h.unexhausted]

theorem endOfInput_mem (h : q.Delivers ts) : ∃ t ∈ ts, t.kind = .endOfInput := by
  obtain ⟨last, hl, hk⟩ := Option.map_eq_some_iff.mp h.ended
  exact ⟨last, List.mem_of_getLast? hl, hk⟩

theorem after_of_read (h : q.Delivers ts) {o : Option Statement} {q' : TokenQueue}
    (hr : q.read = (.ok o, q')) : ∃ w t rest last, ts = w ++ t :: rest ∧
      q.Hands (w ++ [t]) q' ∧ idle.after w = some last ∧ last.feed t = .accept o := by
  rw [read_delivers h] at hr
  obtain ⟨w, t, last, hw, ha, hf⟩ := after_of_run hr
  obtain ⟨q₂, hh⟩ := h.handed
  rcases hands_comparable hw hh with ⟨rest, hrest⟩ | ⟨u, rest, hrest⟩
  · exact ⟨w, t, rest, last, by simpa using hrest, hw, ha, hf⟩
  · -- The input would have ended among the tokens that were shifted.
    obtain ⟨e, he, hk⟩ := endOfInput_mem h
    have hmem : e ∈ w := by
      rcases List.eq_nil_or_concat rest with rfl | ⟨init, v, rfl⟩
      · rw [(List.append_inj' hrest rfl).1]
        exact he
      · have hinit : w ++ [t] = (ts ++ u :: init) ++ [v] := by simpa using hrest
        rw [(List.append_inj' hinit rfl).1]
        exact List.mem_append_left _ he
    exact absurd hk (not_endOfInput_of_after ha e hmem)

theorem derives_of_read (h : q.Delivers ts) {s : Statement} {q' : TokenQueue}
    (hr : q.read = (.ok (some s), q')) :
    ∃ w, w <+: significant ts ∧ Derives .statement w s ∧ q.Hands (leading ts ++ w) q' := by
  obtain ⟨w, t, rest, last, rfl, hw, ha, hf⟩ := after_of_read h hr
  rcases accepted_of_after ha hf with ⟨_, _, ho⟩ | ⟨lead, body, _, heq, hl, ho, hd⟩
  · cases ho
  cases ho
  obtain ⟨b, others, rfl, hb, _⟩ := derives_first_leads hd
  obtain ⟨hlead, hsig⟩ : leading (lead ++ b :: (others ++ rest)) = lead ∧
      significant (lead ++ b :: (others ++ rest)) = b :: (others ++ rest) := leading_append hl hb
  have hts : w ++ t :: rest = lead ++ b :: (others ++ rest) := by
    have happ := congrArg (· ++ rest) heq
    simpa using happ
  refine ⟨b :: others, ?_, hd, ?_⟩
  · rw [hts, hsig]
    exact ⟨rest, rfl⟩
  · rw [hts, hlead, ← heq]
    exact hw

theorem read_of_derives (h : q.Delivers ts) {w : List Token} {s : Statement}
    (hw : w <+: significant ts) (hd : Derives .statement w s) :
    ∃ q', q.Hands (leading ts ++ w) q' ∧ q.read = (.ok (some s), q') := by
  obtain ⟨rest, hrest⟩ := hw
  obtain ⟨q₂, hh⟩ := h.handed
  rw [← leading_significant ts, ← hrest, ← List.append_assoc] at hh
  obtain ⟨q', hq, _⟩ := hands_split hh
  obtain ⟨w₀, t, last, heq, ha, hf⟩ := after_of_derives (leads_of_leading ts) hd
  refine ⟨q', hq, ?_⟩
  rw [heq] at hq
  rw [read_delivers h]
  exact run_of_after hq ha hf

theorem read_none_iff (h : q.Delivers ts) : (∃ q', q.read = (.ok none, q')) ↔
    ∃ e rest, significant ts = e :: rest ∧ e.kind = .endOfInput := by
  constructor
  · rintro ⟨q', hr⟩
    obtain ⟨w, t, rest, last, rfl, hw, ha, hf⟩ := after_of_read h hr
    rcases accepted_of_after ha hf with ⟨hl, hk, _⟩ | ⟨_, _, _, _, _, ho, _⟩
    · exact ⟨t, rest, (leading_append hl (by simp [leads, hk])).2, hk⟩
    · cases ho
  · rintro ⟨e, rest, hs, hk⟩
    obtain ⟨q₂, hh⟩ := h.handed
    rw [← leading_significant ts, hs] at hh
    have happ : leading ts ++ e :: rest = (leading ts ++ [e]) ++ rest := by simp
    rw [happ] at hh
    obtain ⟨q', hq, _⟩ := hands_split hh
    refine ⟨q', ?_⟩
    rw [read_delivers h]
    exact run_of_after hq (after_leading (leads_of_leading ts)) (by simp [feed, hk])

theorem derives_unique (h : q.Delivers ts) {w w' : List Token} {s s' : Statement}
    (hw : w <+: significant ts) (hw' : w' <+: significant ts) (hd : Derives .statement w s)
    (hd' : Derives .statement w' s') : w = w' ∧ s = s' := by
  obtain ⟨q₁, hh, hr⟩ := read_of_derives h hw hd
  obtain ⟨q₂, hh', hr'⟩ := read_of_derives h hw' hd'
  rw [hr] at hr'
  cases hr'
  refine ⟨?_, rfl⟩
  have same {us rest : List Token} (h₁ : q.Hands us q₁) (h₂ : q.Hands (us ++ rest) q₁) :
      rest = [] := by
    obtain ⟨q₃, ha, hb⟩ := hands_split h₂
    rw [hands_unique ha h₁] at hb
    have hsize := hands_size hb
    exact List.length_eq_zero_iff.mp (by omega)
  rcases hands_comparable hh hh' with ⟨rest, hrest⟩ | ⟨t, rest, hrest⟩
  · rw [hrest] at hh'
    rw [same hh hh', List.append_nil] at hrest
    exact (List.append_cancel_left hrest).symm
  · rw [hrest] at hh
    cases same hh' hh

/-- Without a lexical error, what is not read is a token out of place. -/
theorem grammar_of_run {reader : Reader} {q' q₂ : TokenQueue} {failure : Failure}
    (hh : q.Hands ts q₂) (he : ∃ t ∈ ts, t.kind = .endOfInput)
    (hr : reader.run q = (.error failure, q')) :
    ∃ t ∈ ts, ∃ expected, failure = .grammar t.position t.kind expected := by
  induction hh generalizing reader with
  | nil =>
    obtain ⟨_, hm, _⟩ := he
    cases hm
  | @cons q q₁ _ t ts hn _ ih =>
    rw [run_next hn] at hr
    split at hr
    next hk =>
      have he' : ∃ u ∈ ts, u.kind = .endOfInput := by
        obtain ⟨u, hu, huk⟩ := he
        rcases List.mem_cons.mp hu with rfl | hu
        · exact absurd hk (feed_endOfInput huk)
        · exact ⟨u, hu, huk⟩
      obtain ⟨u, hu, hf⟩ := ih he' hr
      exact ⟨u, by simp [hu], hf⟩
    next => cases hr
    next expected _ _ =>
      cases hr
      exact ⟨t, by simp, expected, rfl⟩

/-- Reading gives nothing exactly at the end of the input, and a statement
exactly if some beginning of the tokens is one; that beginning and its tree are
unique, and it is what the queue has handed out. Anything else is reported as a
token out of place. -/
theorem read_iff_grammar (h : q.Delivers ts) :
    ((∃ q', q.read = (.ok none, q')) ↔
      ∃ e rest, significant ts = e :: rest ∧ e.kind = .endOfInput) ∧
    (∀ s, (∃ q', q.read = (.ok (some s), q')) ↔
      ∃ w, w <+: significant ts ∧ Derives .statement w s) ∧
    (∀ s q', q.read = (.ok (some s), q') →
      ∃ w, w <+: significant ts ∧ Derives .statement w s ∧ q.Hands (leading ts ++ w) q') ∧
    (∀ w w' s s', w <+: significant ts → w' <+: significant ts → Derives .statement w s →
      Derives .statement w' s' → w = w' ∧ s = s') ∧
    (∀ failure q', q.read = (.error failure, q') →
      ∃ t ∈ ts, ∃ expected, failure = .grammar t.position t.kind expected) := by
  refine ⟨read_none_iff h, fun s => ⟨?_, ?_⟩, fun s q' => derives_of_read h, ?_, ?_⟩
  · rintro ⟨q', hr⟩
    obtain ⟨w, hw, hd, _⟩ := derives_of_read h hr
    exact ⟨w, hw, hd⟩
  · rintro ⟨w, hw, hd⟩
    obtain ⟨q', _, hr⟩ := read_of_derives h hw hd
    exact ⟨q', hr⟩
  · intro w w' s s' hw hw' hd hd'
    exact derives_unique h hw hw' hd hd'
  · intro failure q' hr
    obtain ⟨q₂, hh⟩ := h.handed
    rw [read_delivers h] at hr
    exact grammar_of_run hh (endOfInput_mem h) hr

end Delivered

theorem hands_step {q q' : TokenQueue} {t : Token} {ts : List Token}
    (h : q.next.1.toOption = some t) (hs : q.next.2.Hands ts q') : q.Hands (t :: ts) q' := by
  cases hn : q.next with
  | mk r q₁ =>
    rw [hn] at h hs
    cases r with
    | error failure => cases h
    | ok u =>
      cases h
      exact .cons hn hs

theorem delivers_pipeline : (TokenQueue.ofInput (.ofBytes [59, 97, 124, 98])).Delivers
    [⟨.semicolon, [';'], ⟨1, 1⟩⟩, ⟨.command, ['a'], ⟨1, 2⟩⟩, ⟨.pipe, ['|'], ⟨1, 3⟩⟩,
      ⟨.command, ['b'], ⟨1, 4⟩⟩, ⟨.endOfInput, [], ⟨1, 1⟩⟩] where
  unexhausted := rfl
  handed := ⟨_, hands_step (by decide +kernel) (hands_step (by decide +kernel)
    (hands_step (by decide +kernel) (hands_step (by decide +kernel)
      (hands_step (by decide +kernel) (.nil _)))))⟩
  ended := rfl

theorem read_iff_grammar_pipeline :
    (TokenQueue.ofInput (.ofBytes [59, 97, 124, 98])).Delivers
      [⟨.semicolon, [';'], ⟨1, 1⟩⟩, ⟨.command, ['a'], ⟨1, 2⟩⟩, ⟨.pipe, ['|'], ⟨1, 3⟩⟩,
        ⟨.command, ['b'], ⟨1, 4⟩⟩, ⟨.endOfInput, [], ⟨1, 1⟩⟩] ∧
    ∃ q', (TokenQueue.ofInput (.ofBytes [59, 97, 124, 98])).read =
      (.ok (some (.pipeline (.atom (.word ⟨.command, ['a'], ⟨1, 2⟩⟩))
        (.atom (.word ⟨.command, ['b'], ⟨1, 4⟩⟩)))), q') := by
  refine ⟨delivers_pipeline,
    ((read_iff_grammar delivers_pipeline).2.1 _).mpr ⟨_, List.prefix_refl _, ?_⟩⟩
  exact .ended (.alone (.pipe (.plain (.word rfl)) rfl newlines_nil (.single (.plain (.word rfl)))))
    (.inr rfl)

end Grammar

end TinyShell
