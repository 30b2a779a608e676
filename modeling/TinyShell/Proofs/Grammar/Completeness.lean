import TinyShell.Proofs.Grammar.Derivation

/-!
# Readers along a derivation

A derivation says what a reader does with its tokens: it shifts them and comes
to wait for whatever may follow the phrase, with the tree of the phrase in
hand. The tokens of a whole statement are shifted up to the last one, which is
accepted.
-/

set_option autoImplicit false

namespace TinyShell

namespace Reader

def after (reader : Reader) : List Token → Option Reader
  | [] => some reader
  | t :: ts =>
    match reader.feed t with
    | .shift next => next.after ts
    | _ => none

theorem after_cons {reader next : Reader} {t : Token} (h : reader.feed t = .shift next)
    (ts : List Token) : reader.after (t :: ts) = next.after ts := by
  simp only [after, h]

theorem after_append {reader next : Reader} {ts : List Token} (h : reader.after ts = some next)
    (us : List Token) : reader.after (ts ++ us) = next.after us := by
  induction ts generalizing reader with
  | nil => cases h; rfl
  | cons t ts ih =>
    simp only [after, List.cons_append] at h ⊢
    split at h
    next => exact ih h
    next => cases h

end Reader

namespace Grammar

open Reader

def Enters (reader : Reader) (level : Level) (outer : List Level) : Prop :=
  ∀ t : Token, starts t.kind = true → reader.feed t = onChain level outer t

def Completed (reader : Reader) (s : Statement) (level : Level) (outer : List Level) : Prop :=
  ∀ t : Token, t.kind.isWord = false → reader.feed t = onFollow s level outer t

theorem completed_follow (s : Statement) (level : Level) (outer : List Level) :
    Completed (.inside (.follow s) level outer) s level outer := fun _ _ => rfl

theorem enters_chain (spread : Bool) (level : Level) (outer : List Level) :
    Enters (.inside (.chain spread) level outer) level outer := by
  intro t ht
  have hn : t.kind ≠ .newline := ne_of_starts ht rfl
  simp [feed, onStage, hn]

theorem after_skipped {reader : Reader} {ns : List Token} (hn : Newlines ns)
    (h : ∀ t : Token, t.kind = .newline → reader.feed t = .shift reader) :
    reader.after ns = some reader := by
  induction ns with
  | nil => rfl
  | cons t ns ih =>
    rw [after_cons (h t (hn t (by simp)))]
    exact ih fun u hu => hn u (by simp [hu])

theorem feed_spread {t : Token} (ht : t.kind = .newline) (level : Level) (outer : List Level) :
    (Reader.inside (.chain true) level outer).feed t =
      .shift (.inside (.chain true) level outer) := by
  simp [feed, onStage, ht]

theorem after_newlines {level : Level} {outer : List Level} {ns : List Token}
    (hn : Newlines ns) : (Reader.inside (.chain true) level outer).after ns =
      some (.inside (.chain true) level outer) :=
  after_skipped hn fun _ ht => feed_spread ht level outer

theorem onChain_operand {t : Token} (level : Level) (outer : List Level)
    (h : t.kind.isRedirection = false) : onChain level outer t = onOperand level outer t := by
  cases hk : t.kind <;> simp_all [onChain, onRedirection, TokenKind.isRedirection]

/-- The one place where the six redirection operators are told apart. -/
theorem onRedirection_runs {us : List Token} {r : Redirection} (h : Redirects us r)
    (left : Option Statement) (level : Level) (outer : List Level) :
    ∃ op rest first, us = op :: rest ∧ onRedirection left level outer op = some (.shift first) ∧
      ∃ last, first.after rest = some last ∧ Completed last (r.around left) level outer := by
  have target {op name : Token} (arrow : Arrow) (hn : name.kind.isWord = true)
      (ho : onRedirection left level outer op = some (awaitTarget arrow left level outer)) :
      ∃ op' rest first, [op, name] = op' :: rest ∧
        onRedirection left level outer op' = some (.shift first) ∧
        ∃ last, first.after rest = some last ∧
          Completed last ((arrow.onto (.word name)).around left) level outer := by
    refine ⟨op, [name], _, rfl, ho, _, ?_, completed_follow _ level outer⟩
    have hname : feed (.inside (.target arrow left) level outer) name =
        .shift (.inside (.follow ((arrow.onto (.word name)).around left)) level outer) := by
      simp [feed, onStage, hn]
    exact after_cons hname []
  cases h with
  | file ho hn =>
    cases ho with
    | @overwrite fd hk ho =>
      refine target (.overwrite fd) hn ?_
      rcases hk with hk | hk <;> simp [onRedirection, hk, ho]
    | @append fd hk ho =>
      refine target (.append fd) hn ?_
      rcases hk with hk | hk <;> simp [onRedirection, hk, ho]
    | mergeOutput hk => exact target .mergeOutput hn (by simp [onRedirection, hk])
    | mergeAppend hk => exact target .mergeAppend hn (by simp [onRedirection, hk])
    | input hk => exact target .input hn (by simp [onRedirection, hk])
  | @merge op source destination hk ho =>
    refine ⟨op, [], .inside (.follow _) level outer, rfl, ?_, _, rfl, completed_follow _ _ _⟩
    simp only [onRedirection, hk, ho]
    cases source <;> cases destination <;> rfl

def Runs : Phrase → List Token → Statement → Prop
  | .operand, w, s => ∀ (reader : Reader) (level : Level) (outer : List Level),
      (∀ t : Token, starts t.kind = true → t.kind.isRedirection = false →
        reader.feed t = onOperand level outer t) →
      ∃ last, reader.after w = some last ∧
        Completed last (level.negate s) { level with negations := 0 } outer
  | .chain, w, s => ∀ (reader : Reader) (level : Level) (outer : List Level),
      Enters reader level outer → level.negations = 0 →
      ∃ last, reader.after w = some last ∧ Completed last s level outer
  | .pipeline, w, s => ∀ (reader : Reader) (level : Level) (outer : List Level),
      Enters reader level outer → level.negations = 0 →
      ∃ last s₀ level₀, reader.after w = some last ∧ Completed last s₀ level₀ outer ∧
        level₀.closePipeline s₀ = level.closePipeline s ∧ level₀.joined = level.joined ∧
        level₀.before = level.before ∧ level₀.negations = 0
  | .logical, w, s => ∀ (reader : Reader) (before : List Statement) (outer : List Level),
      Enters reader ⟨before, none, [], 0⟩ outer →
      ∃ last s₀ level₀, reader.after w = some last ∧ Completed last s₀ level₀ outer ∧
        level₀.closeLogical s₀ = s ∧ level₀.before = before ∧ level₀.negations = 0
  | .inner, w, s => ∀ (reader : Reader) (before : List Statement) (parent : Level)
      (others : List Level), Enters reader ⟨before, none, [], 0⟩ (parent :: others) →
      (∀ t : Token, t.kind = .newline → reader.feed t = .shift reader) →
      ∃ last, reader.after w = some last ∧ ∀ t : Token, t.kind = .rightParen →
        last.feed t = closeGroup (Level.close ⟨before, none, [], 0⟩ s) parent others
  | .statement, w, s => ∀ (reader : Reader) (before : List Statement),
      Enters reader ⟨before, none, [], 0⟩ [] →
      ∃ w₀ t last, w = w₀ ++ [t] ∧ reader.after w₀ = some last ∧
        last.feed t = .accept (some (Level.close ⟨before, none, [], 0⟩ s))

theorem after_words {head : Token} {level : Level} {outer : List Level} {ts : List Token}
    (ht : ∀ t ∈ ts, t.kind.isWord = true) (latest : List Token) :
    (Reader.inside (.words head latest) level outer).after ts =
      some (.inside (.words head (ts.reverse ++ latest)) level outer) := by
  induction ts generalizing latest with
  | nil => rfl
  | cons t ts ih =>
    have hw : t.kind.isWord = true := ht t (by simp)
    have hf : feed (.inside (.words head latest) level outer) t =
        .shift (.inside (.words head (t :: latest)) level outer) := by
      simp [feed, onStage, hw]
    rw [after_cons hf, ih fun u hu => ht u (by simp [hu])]
    simp

theorem runs_words {head : Token} {ts : List Token} (hh : head.kind.isWord = true)
    (ht : ∀ t ∈ ts, t.kind.isWord = true) :
    Runs .operand (head :: ts) (.atom (.ofWords head ts.reverse)) := by
  intro reader level outer hr
  have hf : reader.feed head = .shift (.inside (.words head []) level outer) := by
    rw [hr head (by simp [starts, hh]) (not_redirection_of_word hh)]
    cases hk : head.kind <;> simp_all [TokenKind.isWord, onOperand]
  refine ⟨_, (after_cons hf ts).trans (after_words ht []), ?_⟩
  intro t hw
  simp [feed, onStage, hw]

theorem repeat_not (n : Nat) (s : Statement) :
    Nat.repeat Statement.not n (.not s) = .not (Nat.repeat Statement.not n s) := by
  induction n with
  | zero => rfl
  | succ n ih => exact congrArg Statement.not ih

theorem runs_not {bang : Token} {ts : List Token} {s : Statement} (hb : bang.kind = .not)
    (h : Runs .operand ts s) : Runs .operand (bang :: ts) (.not s) := by
  intro reader level outer hr
  have hf : reader.feed bang =
      .shift (.inside .operand { level with negations := level.negations + 1 } outer) := by
    rw [hr bang (by simp [starts, hb]) (by rw [hb]; rfl)]
    simp [onOperand, hb]
  obtain ⟨last, ha, hc⟩ := h
    (.inside .operand { level with negations := level.negations + 1 } outer) _ outer
    fun _ _ _ => rfl
  refine ⟨last, (after_cons hf ts).trans ha, ?_⟩
  have hs : level.negate (.not s) =
      Level.negate { level with negations := level.negations + 1 } s := repeat_not _ _
  rw [hs]
  exact hc

theorem runs_group {left right : Token} {ts : List Token} {s : Statement}
    (hl : left.kind = .leftParen) (hr : right.kind = .rightParen) (h : Runs .inner ts s) :
    Runs .operand (left :: (ts ++ [right])) s := by
  intro reader level outer hreader
  have hf : reader.feed left = .shift (.inside (.chain true) Level.empty (level :: outer)) := by
    rw [hreader left (by simp [starts, hl]) (by rw [hl]; rfl)]
    simp [onOperand, hl]
  obtain ⟨last, ha, hc⟩ := h (.inside (.chain true) Level.empty (level :: outer)) [] level outer
    (enters_chain _ _ _) fun _ ht => feed_spread ht _ _
  refine ⟨_, ?_, completed_follow _ _ outer⟩
  rw [after_cons hf, after_append ha]
  exact after_cons (hc right hr) []

theorem runs_redirect {ts us : List Token} {s : Statement} {r : Redirection}
    (h : Runs .chain ts s) (hr : Redirects us r) : Runs .chain (ts ++ us) (.redirect r s) := by
  intro reader level outer he h0
  obtain ⟨last, ha, hc⟩ := h reader level outer he h0
  obtain ⟨op, rest, first, rfl, ho, final, hf, hd⟩ := onRedirection_runs hr (some s) level outer
  obtain ⟨_, _, heq, hk⟩ := redirects_first hr
  cases heq
  refine ⟨final, ?_, hd⟩
  have hfeed : last.feed op = .shift first := by
    rw [hc op (not_word_of_redirection hk)]
    simp [onFollow, ho]
  rw [after_append ha, after_cons hfeed]
  exact hf

theorem runs_bare {us : List Token} {r : Redirection} (hr : Redirects us r) :
    Runs .chain us (.bare r) := by
  intro reader level outer he _
  obtain ⟨op, rest, first, rfl, ho, final, hf, hd⟩ := onRedirection_runs hr none level outer
  obtain ⟨_, _, heq, hk⟩ := redirects_first hr
  cases heq
  refine ⟨final, ?_, hd⟩
  have hfeed : reader.feed op = .shift first := by
    rw [he op (by simp [starts, hk])]
    simp [onChain, ho]
  rw [after_cons hfeed]
  exact hf

theorem runs_plain {ts : List Token} {s : Statement} (h : Runs .operand ts s) :
    Runs .chain ts s := by
  intro reader level outer he h0
  have hl : { level with negations := 0 } = level := by rw [← h0]
  have hs : level.negate s = s := by rw [Level.negate, h0]; rfl
  have ho := h reader level outer fun t hk hr => (he t hk).trans (onChain_operand level outer hr)
  rwa [hl, hs] at ho

theorem runs_pipe {bar : Token} {ts ns us : List Token} {l r : Statement}
    (hb : bar.kind = .pipe) (hn : Newlines ns) (hl : Runs .chain ts l)
    (hr : Runs .pipeline us r) : Runs .pipeline (ts ++ bar :: (ns ++ us)) (.pipeline l r) := by
  intro reader level outer he h0
  obtain ⟨last, ha, hc⟩ := hl reader level outer he h0
  have hfeed : last.feed bar =
      .shift (.inside (.chain true) { level with piped := l :: level.piped } outer) := by
    rw [hc bar (by rw [hb]; rfl)]
    simp [onFollow, onRedirection, hb]
  obtain ⟨final, s₀, level₀, hf, hcomp, hclose, hj, hbefore, hneg⟩ :=
    hr _ { level with piped := l :: level.piped } outer (enters_chain true _ _) h0
  refine ⟨final, s₀, level₀, ?_, hcomp, hclose, hj, hbefore, hneg⟩
  rw [after_append ha, after_cons hfeed, after_append (after_newlines hn)]
  exact hf

theorem runs_join {op : Token} {ts ns us : List Token} {l r : Statement} {c : Connective}
    (ho : Connective.ofKind? op.kind = some c) (hn : Newlines ns) (hl : Runs .logical ts l)
    (hr : Runs .pipeline us r) : Runs .logical (ts ++ op :: (ns ++ us)) (c.join l r) := by
  intro reader before outer he
  obtain ⟨last, s₀, level₀, ha, hc, hclose, hbefore, hneg⟩ := hl reader before outer he
  have hfeed : last.feed op = .shift (.inside (.chain true)
      { level₀ with joined := some (c, l), piped := [] } outer) := by
    have hw : op.kind.isWord = false := by
      cases hk : op.kind <;> simp_all [Connective.ofKind?, TokenKind.isWord]
    rw [hc op hw, ← hclose]
    cases hk : op.kind <;> simp_all [Connective.ofKind?, onFollow, onRedirection]
  obtain ⟨final, s₁, level₁, hf, hcomp, hpipe, hj, hb, hn₁⟩ :=
    hr _ { level₀ with joined := some (c, l), piped := [] } outer (enters_chain true _ _) hneg
  refine ⟨final, s₁, level₁, ?_, hcomp, ?_, hb.trans hbefore, hn₁⟩
  · rw [after_append ha, after_cons hfeed, after_append (after_newlines hn)]
    exact hf
  · rw [Level.closeLogical, hj, hpipe]
    rfl

theorem runs_alone {ts : List Token} {s : Statement} (h : Runs .pipeline ts s) :
    Runs .logical ts s := by
  intro reader before outer he
  obtain ⟨last, s₀, level₀, ha, hc, hclose, hj, hb, hn⟩ := h reader _ outer he rfl
  refine ⟨last, s₀, level₀, ha, hc, ?_, hb, hn⟩
  rw [Level.closeLogical, hj]
  exact hclose

theorem onFollow_scope {t : Token} (ht : IsSeparator t ∨ IsEnd t ∨ t.kind = .rightParen)
    (s : Statement) (level : Level) (outer : List Level) :
    onFollow s level outer t = onScope (level.closeLogical s) level outer t := by
  rcases ht with (h | h) | (h | h) | h <;>
    simp [onFollow, onRedirection, Connective.ofKind?, h]

theorem runs_to_scope {ts : List Token} {s : Statement} (h : Runs .logical ts s)
    {reader : Reader} {before : List Statement} {outer : List Level}
    (he : Enters reader ⟨before, none, [], 0⟩ outer) :
    ∃ last level, reader.after ts = some last ∧ level.before = before ∧
      ∀ t : Token, IsSeparator t ∨ IsEnd t ∨ t.kind = .rightParen →
        last.feed t = onScope s level outer t := by
  obtain ⟨last, s₀, level₀, ha, hc, hclose, hb, _⟩ := h reader before outer he
  refine ⟨last, level₀, ha, hb, fun t ht => ?_⟩
  have hw : t.kind.isWord = false := by
    rcases ht with (h | h) | (h | h) | h <;> rw [h] <;> rfl
  rw [hc t hw, onFollow_scope ht, hclose]

theorem close_congr {level : Level} {before : List Statement} (h : level.before = before)
    (s : Statement) : level.close s = Level.close ⟨before, none, [], 0⟩ s := by
  subst h
  rfl

section Inner

variable {sep : Token} {ns ts ms : List Token} {s : Statement}

theorem runs_inner (hn : Newlines ns) (h : Runs .logical ts s) : Runs .inner (ns ++ ts) s := by
  intro reader before parent others he hr
  obtain ⟨last, level, ha, hb, hf⟩ := runs_to_scope h he
  refine ⟨last, (after_append (after_skipped hn hr) ts).trans ha, fun t ht => ?_⟩
  rw [hf t (.inr (.inr ht)), ← close_congr hb]
  simp [onScope, ht]

/-- After a separator inside parentheses newlines are passed over, and the
scope may close. -/
theorem runs_to_separated (hn : Newlines ns) (h : Runs .logical ts s) (hs : IsSeparator sep)
    (hm : Newlines ms) {reader : Reader} {before : List Statement} {parent : Level}
    {others : List Level} (he : Enters reader ⟨before, none, [], 0⟩ (parent :: others))
    (hr : ∀ t : Token, t.kind = .newline → reader.feed t = .shift reader) :
    ∃ level, level.before = before ∧ reader.after (ns ++ (ts ++ sep :: ms)) =
      some (.inside (.groupSeparated s) level (parent :: others)) := by
  obtain ⟨last, level, ha, hb, hf⟩ := runs_to_scope h he
  have hsep : last.feed sep =
      .shift (.inside (.groupSeparated s) level (parent :: others)) := by
    rw [hf sep (.inl hs)]
    rcases hs with hs | hs <;> simp [onScope, hs]
  refine ⟨level, hb, ?_⟩
  rw [after_append (after_skipped hn hr), after_append ha, after_cons hsep]
  exact after_skipped hm fun t ht => by simp [feed, onStage, ht]

theorem runs_innerClosed (hn : Newlines ns) (h : Runs .logical ts s) (hs : IsSeparator sep)
    (hm : Newlines ms) : Runs .inner (ns ++ (ts ++ sep :: ms)) s := by
  intro reader before parent others he hr
  obtain ⟨level, hb, ha⟩ := runs_to_separated hn h hs hm he hr
  refine ⟨_, ha, fun t ht => ?_⟩
  rw [← close_congr hb]
  simp [feed, onStage, ht]

theorem enters_groupSeparated (s : Statement) (level : Level) (outer : List Level) :
    Enters (.inside (.groupSeparated s) level outer) (level.separate s) outer := by
  intro t ht
  simp only [feed, onStage]
  split
  next hk => exact absurd hk (ne_of_starts ht rfl)
  next hk => exact absurd hk (ne_of_starts ht rfl)
  next => rfl

theorem runs_innerSequence {us : List Token} {r : Statement} (hn : Newlines ns)
    (h : Runs .logical ts s) (hs : IsSeparator sep) (hm : Newlines ms) (hr : Runs .inner us r) :
    Runs .inner (ns ++ (ts ++ sep :: (ms ++ us))) (.sequence s r) := by
  intro reader before parent others he hskip
  obtain ⟨level, rfl, ha⟩ := runs_to_separated hn h hs hm he hskip
  obtain ⟨last, hl, hc⟩ := hr _ (s :: level.before) parent others
    (enters_groupSeparated s level _) fun t ht => by simp [feed, onStage, ht]
  refine ⟨last, ?_, hc⟩
  have happ := after_append ha us
  rw [hl] at happ
  simpa using happ

end Inner

section Statement

variable {semi final : Token} {ts : List Token} {s : Statement}

theorem runs_ended (h : Runs .logical ts s) (he : IsEnd final) :
    Runs .statement (ts ++ [final]) s := by
  intro reader before hr
  obtain ⟨last, level, ha, hb, hf⟩ := runs_to_scope h hr
  refine ⟨ts, final, last, rfl, ha, ?_⟩
  rw [hf final (.inr (.inl he)), ← close_congr hb]
  rcases he with he | he <;> simp [onScope, he]

theorem runs_to_semicolon (h : Runs .logical ts s) (hs : semi.kind = .semicolon)
    {reader : Reader} {before : List Statement} (he : Enters reader ⟨before, none, [], 0⟩ []) :
    ∃ level, level.before = before ∧
      reader.after (ts ++ [semi]) = some (.inside (.separated s) level []) := by
  obtain ⟨last, level, ha, hb, hf⟩ := runs_to_scope h he
  refine ⟨level, hb, (after_append ha [semi]).trans (after_cons ?_ [])⟩
  rw [hf semi (.inl (.inl hs))]
  simp [onScope, hs]

theorem runs_closed (h : Runs .logical ts s) (hs : semi.kind = .semicolon) (he : IsEnd final) :
    Runs .statement (ts ++ [semi, final]) (.closed s) := by
  intro reader before hr
  obtain ⟨level, hb, ha⟩ := runs_to_semicolon h hs hr
  refine ⟨ts ++ [semi], final, _, by simp, ha, ?_⟩
  rw [← close_congr hb]
  rcases he with he | he <;> simp [feed, onStage, he]

theorem enters_separated (s : Statement) (level : Level) :
    Enters (.inside (.separated s) level []) (level.separate s) [] := by
  intro t ht
  simp only [feed, onStage]
  split
  next hk => exact absurd hk (ne_of_starts ht rfl)
  next hk => exact absurd hk (ne_of_starts ht rfl)
  next => rfl

theorem runs_sequence {us : List Token} {r : Statement} (h : Runs .logical ts s)
    (hs : semi.kind = .semicolon) (hr : Runs .statement us r) :
    Runs .statement (ts ++ semi :: us) (.sequence s r) := by
  intro reader before he
  obtain ⟨level, rfl, ha⟩ := runs_to_semicolon h hs he
  obtain ⟨w₀, t, last, rfl, hl, hc⟩ := hr _ (s :: level.before) (enters_separated s level)
  refine ⟨ts ++ semi :: w₀, t, last, by simp, ?_, hc⟩
  have happ := after_append ha w₀
  rw [hl] at happ
  simpa using happ

end Statement

theorem runs_of_derives {p : Phrase} {w : List Token} {s : Statement} (h : Derives p w s) :
    Runs p w s := by
  induction h with
  | word hh => exact runs_words hh (by simp)
  | @words head arguments hh hn ha =>
    have hr := runs_words hh ha
    rwa [Expression.ofWords, if_neg (by simpa using hn), List.reverse_reverse] at hr
  | not hb _ ih => exact runs_not hb ih
  | group hl _ hr ih => exact runs_group hl hr ih
  | plain _ ih => exact runs_plain ih
  | bare hr => exact runs_bare hr
  | redirect _ hr ih => exact runs_redirect ih hr
  | single _ ih =>
    intro reader level outer he h0
    obtain ⟨last, ha, hc⟩ := ih reader level outer he h0
    exact ⟨last, _, level, ha, hc, rfl, rfl, rfl, h0⟩
  | pipe _ hb hn _ ihl ihr => exact runs_pipe hb hn ihl ihr
  | alone _ ih => exact runs_alone ih
  | and _ ho hn _ ihl ihr => exact runs_join (c := .and) (by rw [ho]; rfl) hn ihl ihr
  | or _ ho hn _ ihl ihr => exact runs_join (c := .or) (by rw [ho]; rfl) hn ihl ihr
  | inner hn _ ih => exact runs_inner hn ih
  | innerClosed hn _ hs hm ih => exact runs_innerClosed hn ih hs hm
  | innerSequence hn _ hs hm _ ihl ihr => exact runs_innerSequence hn ihl hs hm ihr
  | ended _ he ih => exact runs_ended ih he
  | closed _ hs he ih => exact runs_closed ih hs he
  | sequence _ hs _ ihl ihr => exact runs_sequence ihl hs ihr

end Grammar

end TinyShell
