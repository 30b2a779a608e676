import TinyShell.Proofs.Descent.Rules

/-!
# The descent and the stack machine

The productions and the stack machine read the same statements. For each phrase
there is a place where the machine waits for it, and one where it has read it;
the phrase is read from the one to the other, or the machine fails with the
production.
-/

set_option autoImplicit false

namespace TinyShell

namespace Descent

open Reader Grammar

def Ahead (p : TokenKind → Prop) (q : TokenQueue) : Prop :=
  ∃ t, q.lookahead = some t ∧ p t.kind

def EndsChain (k : TokenKind) : Prop := k.isRedirection = false

def EndsPipeline (k : TokenKind) : Prop := EndsChain k ∧ k ≠ .pipe

def EndsLogical (k : TokenKind) : Prop := EndsPipeline k ∧ Connective.ofKind? k = none

def waiting : Option Statement → Stage
  | none => .chain false
  | some s => .follow s

section Places

variable (answer : Except Failure (Option Statement) × TokenQueue) (n : Nat)

def Follows (level : Level) (outer : List Level) (s : Statement) (q : TokenQueue) : Prop :=
  Stands answer n (.inside (.follow s) level outer) q

def Piped (level : Level) (outer : List Level) (s : Statement) (q : TokenQueue) : Prop :=
  ∃ s₀ level₀, Follows answer n level₀ outer s₀ q ∧
    level₀.closePipeline s₀ = level.closePipeline s ∧ level₀.joined = level.joined ∧
    level₀.before = level.before ∧ level₀.negations = 0

def Joined (before : List Statement) (outer : List Level) (s : Statement) (q : TokenQueue) :
    Prop :=
  ∃ s₀ level₀, Follows answer n level₀ outer s₀ q ∧ level₀.closeLogical s₀ = s ∧
    level₀.before = before ∧ level₀.negations = 0

def Closes (before : List Statement) (parent : Level) (others : List Level) (s : Statement)
    (q : TokenQueue) : Prop :=
  ∃ reader t, Stands answer n reader q ∧ q.lookahead = some t ∧ t.kind = .rightParen ∧
    reader.feed t = closeGroup (Level.close ⟨before, none, [], 0⟩ s) parent others

end Places

def Agrees (n : Nat) : {α : Type} → Production α → Prop
  | _, .start => ∀ answer q, Stands answer n .idle q →
      Meets answer (fun o q' => answer = (.ok o, q')) Production.start.program q
  | _, .statement => ∀ answer before q,
      Stands answer n (.inside (.chain false) ⟨before, none, [], 0⟩ []) q →
      Meets answer (fun s q' => answer = (.ok (some (Level.close ⟨before, none, [], 0⟩ s)), q'))
        Production.statement.program q
  | _, .inner => ∀ answer before parent others q,
      Stands answer n (.inside (.chain true) ⟨before, none, [], 0⟩ (parent :: others)) q →
      Meets answer (Closes answer n before parent others) Production.inner.program q
  | _, .innerEnd left => ∀ answer before parent others q,
      Joined answer n before (parent :: others) left q → Ahead EndsLogical q →
      Meets answer (Closes answer n before parent others) (Production.innerEnd left).program q
  | _, .innerRest left => ∀ answer level parent others q,
      Stands answer n (.inside (.groupSeparated left) level (parent :: others)) q →
      Ahead (· ≠ .newline) q →
      Meets answer (Closes answer n level.before parent others)
        (Production.innerRest left).program q
  | _, .logical => ∀ answer before outer q,
      Stands answer n (.inside (.chain false) ⟨before, none, [], 0⟩ outer) q →
      Meets answer (fun s q' => Joined answer n before outer s q' ∧ Ahead EndsLogical q')
        Production.logical.program q
  | _, .logicalRest left => ∀ answer before outer q,
      Joined answer n before outer left q → Ahead EndsPipeline q →
      Meets answer (fun s q' => Joined answer n before outer s q' ∧ Ahead EndsLogical q')
        (Production.logicalRest left).program q
  | _, .pipeline => ∀ answer level outer q, level.negations = 0 →
      Stands answer n (.inside (.chain false) level outer) q →
      Meets answer (fun s q' => Piped answer n level outer s q' ∧ Ahead EndsPipeline q')
        Production.pipeline.program q
  | _, .chain => ∀ answer level outer q, level.negations = 0 →
      Stands answer n (.inside (.chain false) level outer) q →
      Meets answer (fun s q' => Follows answer n level outer s q' ∧ Ahead EndsChain q')
        Production.chain.program q
  | _, .chainRest left => ∀ answer level outer q,
      Stands answer n (.inside (waiting left) level outer) q →
      (left = none → Ahead (·.isRedirection = true) q) →
      Meets answer (fun s q' => Follows answer n level outer s q' ∧ Ahead EndsChain q')
        (Production.chainRest left).program q
  | _, .redirection left => ∀ answer level outer q,
      Stands answer n (.inside (waiting left) level outer) q →
      Ahead (·.isRedirection = true) q →
      Meets answer (fun s q' => ∃ m < n, Follows answer m level outer s q')
        (Production.redirection left).program q
  | _, .operand => ∀ answer level outer q, Stands answer n (.inside .operand level outer) q →
      Meets answer (fun s => Follows answer n { level with negations := 0 } outer (level.negate s))
        Production.operand.program q
  | _, .words head latest => ∀ answer level outer q,
      Stands answer n (.inside (.words head latest) level outer) q →
      Meets answer (fun s => Follows answer n { level with negations := 0 } outer (level.negate s))
        (Production.words head latest).program q
  | _, .spread phrase => ∀ answer reader post q,
      (∀ t : Token, t.kind = .newline → reader.feed t = .shift reader) →
      Stands answer n reader q →
      (∀ q₁, Stands answer n reader q₁ → Ahead (· ≠ .newline) q₁ →
        Meets answer post phrase.program q₁) →
      Meets answer post (Production.spread phrase).program q

section Phrases

variable {n m : Nat} {answer : Except Failure (Option Statement) × TokenQueue}
  {level : Level} {outer others : List Level} {parent : Level} {before : List Statement}
  {s : Statement} {q : TokenQueue} {t : Token}

theorem Closes.mono (h : Closes answer m before parent others s q) (hm : m ≤ n) :
    Closes answer n before parent others s q := by
  obtain ⟨reader, t, hs, hl, hk, hf⟩ := h
  exact ⟨reader, t, hs.mono hm, hl, hk, hf⟩

theorem Joined.mono (h : Joined answer m before outer s q) (hm : m ≤ n) :
    Joined answer n before outer s q := by
  obtain ⟨s₀, level₀, hf, hrest⟩ := h
  exact ⟨s₀, level₀, Stands.mono hf hm, hrest⟩

theorem onFollow_pipe (ht : t.kind = .pipe) (s : Statement) (level : Level) (outer : List Level) :
    onFollow s level outer t =
      .shift (.inside (.chain true) { level with piped := s :: level.piped } outer) := by
  simp [onFollow, onRedirection, ht]

theorem onFollow_connective {c : Connective} (ht : Connective.ofKind? t.kind = some c)
    (s : Statement) (level : Level) (outer : List Level) :
    onFollow s level outer t = .shift (.inside (.chain true)
      { level with joined := some (c, level.closeLogical s), piped := [] } outer) := by
  cases hk : t.kind <;> simp_all [Connective.ofKind?, onFollow, onRedirection]

theorem onFollow_ends (ht : EndsLogical t.kind) (s : Statement) (level : Level)
    (outer : List Level) :
    onFollow s level outer t = onScope (level.closeLogical s) level outer t := by
  obtain ⟨⟨hr, hp⟩, hc⟩ := ht
  have hnone : onRedirection (some s) level outer t = none := by
    cases hk : t.kind <;> simp_all [EndsChain, TokenKind.isRedirection, onRedirection]
  simp only [onFollow, hnone, if_neg hp, hc]

theorem feed_waiting {left : Option Statement} {verdict : Verdict}
    (h : onRedirection left level outer t = some verdict) :
    (Reader.inside (waiting left) level outer).feed t = verdict := by
  cases left with
  | none => simp [waiting, feed, onStage, onChain, h]
  | some s => simp [waiting, feed, onStage, onFollow, h]

/-- No newline is ahead, so it does not matter whether one was allowed. -/
theorem Stands.unspread (h : Stands answer n (.inside (.chain true) level outer) q)
    (ha : Ahead (· ≠ .newline) q) : Stands answer n (.inside (.chain false) level outer) q := by
  obtain ⟨t, hl, ht⟩ := ha
  refine h.congr hl ?_
  simp [feed, onStage, ht]

theorem agrees_spread {phrase : Production Statement}
    (ih : ∀ m < n, Agrees m (.spread phrase)) : Agrees n (.spread phrase) := by
  intro answer reader post q hself h hr
  refine .peek h fun t q₁ h hl => ?_
  split
  next hk =>
    refine .take h hl fun q₂ hfed => ?_
    obtain ⟨m, hm, hs⟩ := hfed.shift (hself t hk)
    have hrest (q₃ : TokenQueue) (h : Stands answer m reader q₃) :=
      hr q₃ (h.mono (Nat.le_of_lt hm))
    exact .last (ih m hm answer reader post q₂ hself hs hrest)
  next hk => exact .last (hr q₁ h ⟨t, hl, hk⟩)

theorem agrees_words {head : Token} {latest : List Token}
    (ih : ∀ m < n, ∀ word, Agrees m (.words head (word :: latest))) :
    Agrees n (.words head latest) := by
  intro answer level outer q h
  refine .peek h fun t q₁ h hl => ?_
  cases hw : t.kind.isWord with
  | true =>
    have hf : (Reader.inside (.words head latest) level outer).feed t =
        .shift (.inside (.words head (t :: latest)) level outer) := by
      simp [feed, onStage, hw]
    refine .take h hl fun q₂ hfed => ?_
    obtain ⟨m, hm, hs⟩ := hfed.shift hf
    exact .read (ih m hm t answer level outer q₂ hs) fun _ _ hf => .done (hf.mono (Nat.le_of_lt hm))
  | false =>
    refine .done (h.congr hl ?_)
    simp [feed, onStage, hw]

theorem meets_redirected {left : Option Statement} {arrow : Arrow} (hm : m < n)
    (h : Stands answer m (.inside (.target arrow left) level outer) q) :
    Meets answer (fun s q' => ∃ k < n, Follows answer k level outer s q')
      (.redirected left arrow) q := by
  refine .next h fun t q₁ _ hfed => ?_
  cases hw : t.kind.isWord with
  | true =>
    have hf : (Reader.inside (.target arrow left) level outer).feed t =
        .shift (.inside (.follow ((arrow.onto (.word t)).around left)) level outer) := by
      simp [feed, onStage, hw]
    obtain ⟨k, hk, hs⟩ := hfed.shift hf
    exact .done ⟨k, Nat.lt_trans hk hm, hs⟩
  | false =>
    have hf : (Reader.inside (.target arrow left) level outer).feed t =
        .reject expectFile true := by
      simp [feed, onStage, hw]
    exact hfed.reject hf

theorem agrees_redirection (left : Option Statement) : Agrees n (.redirection left) := by
  intro answer level outer q h ⟨t, hl, hr⟩
  refine .take h hl fun q₁ hfed => ?_
  have points {arrow : Arrow}
      (ho : onRedirection left level outer t = some (awaitTarget arrow left level outer)) :
      Meets answer (fun s q' => ∃ m < n, Follows answer m level outer s q')
        (.redirected left arrow) q₁ := by
    obtain ⟨m, hm, hs⟩ := hfed.shift (feed_waiting ho)
    exact meets_redirected hm hs
  have refused (ho : onRedirection left level outer t = some (.reject expectOperator true)) :
      Meets answer (fun s q' => ∃ m < n, Follows answer m level outer s q')
        (.unexpected t expectOperator) q₁ := hfed.reject (feed_waiting ho)
  split
  case h_1 hk | h_2 hk =>
    split
    next ho => exact refused (by simp [onRedirection, hk, ho])
    next fd ho => exact points (by simp [onRedirection, hk, ho])
    next fd ho => exact points (by simp [onRedirection, hk, ho])
  next hk => exact points (by simp [onRedirection, hk])
  next hk => exact points (by simp [onRedirection, hk])
  next hk => exact points (by simp [onRedirection, hk])
  next hk =>
    split
    next ho => exact refused (by simp [onRedirection, hk, ho])
    next source destination ho =>
      have hshift : onRedirection left level outer t = some (.shift (.inside
          (.follow ((Redirection.mergeOf source destination).around left)) level outer)) := by
        simp [onRedirection, hk, ho]
      exact .done (hfed.shift (feed_waiting hshift))
  next => cases hk : t.kind <;> simp_all [TokenKind.isRedirection]

theorem agrees_chainRest (left : Option Statement)
    (ih : ∀ m < n, ∀ s, Agrees m (.chainRest (some s))) : Agrees n (.chainRest left) := by
  intro answer level outer q h hfirst
  have more {q : TokenQueue} (h : Stands answer n (.inside (waiting left) level outer) q)
      (ha : Ahead (·.isRedirection = true) q) :
      Meets answer (fun s q' => Follows answer n level outer s q' ∧ Ahead EndsChain q')
        (.read (.redirection left) fun s => .read (.chainRest (some s)) .done) q := by
    refine .read (agrees_redirection left answer level outer q h ha) fun s q₁ hread => ?_
    obtain ⟨m, hm, hf⟩ := hread
    refine .read (ih m hm s answer level outer q₁ hf (by simp)) fun s' q₂ hrest => ?_
    exact .done ⟨hrest.1.mono (Nat.le_of_lt hm), hrest.2⟩
  cases left with
  | none =>
    obtain ⟨t, hl, hr⟩ := hfirst rfl
    refine .see hl ?_
    rw [if_pos hr]
    exact more h ⟨t, hl, hr⟩
  | some s =>
    refine .peek h fun t q₁ h hl => ?_
    cases hr : t.kind.isRedirection with
    | true => exact more h ⟨t, hl, hr⟩
    | false => exact .done ⟨h, t, hl, hr⟩

theorem agrees_operand (hword : ∀ m < n, ∀ head, Agrees m (.words head []))
    (hinner : ∀ m < n, Agrees m .inner) (ih : ∀ m < n, Agrees m .operand) :
    Agrees n .operand := by
  intro answer level outer q h
  refine .next h fun t q₁ hn hfed => ?_
  split
  case h_1 hk | h_2 hk =>
    have hshift : onOperand level outer t = .shift (.inside (.words t []) level outer) := by
      simp [onOperand, hk]
    obtain ⟨m, hm, hs⟩ := hfed.shift hshift
    refine .again hn (.read (hword m hm t answer level outer q₁ hs) fun _ _ hf => ?_)
    exact .done (hf.mono (Nat.le_of_lt hm))
  next hk =>
    have hshift : onOperand level outer t =
        .shift (.inside .operand { level with negations := level.negations + 1 } outer) := by
      simp [onOperand, hk]
    obtain ⟨m, hm, hs⟩ := hfed.shift hshift
    refine .read (ih m hm answer _ outer q₁ hs) fun s q₂ hf => .done ?_
    have hnot : level.negate (.not s) =
        Level.negate { level with negations := level.negations + 1 } s := repeat_not _ s
    rw [hnot]
    exact hf.mono (Nat.le_of_lt hm)
  next hk =>
    have hshift : onOperand level outer t =
        .shift (.inside (.chain true) Level.empty (level :: outer)) := by
      simp [onOperand, hk]
    obtain ⟨m, hm, hs⟩ := hfed.shift hshift
    refine .read (hinner m hm answer [] level outer q₁ hs) fun s q₂ hcloses => ?_
    obtain ⟨reader, closing, hs, hl, hk, hf⟩ := hcloses
    refine .take hs hl fun q₃ hfed => ?_
    rw [if_pos hk]
    obtain ⟨k, hkm, hs⟩ := hfed.shift hf
    exact .done (hs.mono (Nat.le_of_lt (Nat.lt_trans hkm hm)))
  next =>
    have hreject : onOperand level outer t = .reject expectCommand true := by
      simp only [onOperand]
    exact hfed.reject hreject

theorem agrees_chain (hoperand : Agrees n .operand) (hrest : ∀ left, Agrees n (.chainRest left)) :
    Agrees n .chain := by
  intro answer level outer q h0 h
  refine .peek h fun t q₁ h hl => ?_
  cases hr : t.kind.isRedirection with
  | true => exact .last (hrest none answer level outer q₁ h fun _ => ⟨t, hl, hr⟩)
  | false =>
    have hf : (Reader.inside (.chain false) level outer).feed t =
        (Reader.inside .operand level outer).feed t := onChain_operand level outer hr
    refine .read (hoperand answer level outer q₁ (h.congr hl hf)) fun s q₂ hfollows => ?_
    have hlevel : { level with negations := 0 } = level := by rw [← h0]
    have hs : level.negate s = s := by rw [Level.negate, h0]; rfl
    rw [hlevel, hs] at hfollows
    exact .last (hrest (some s) answer level outer q₂ hfollows (by simp))

theorem meets_spread {post : Statement → TokenQueue → Prop} {phrase : Production Statement}
    (hspread : Agrees n (.spread phrase))
    (h : Stands answer n (.inside (.chain true) level outer) q)
    (hr : ∀ q₁, Stands answer n (.inside (.chain false) level outer) q₁ →
      Meets answer post phrase.program q₁) :
    Meets answer post (Production.spread phrase).program q :=
  hspread answer _ post q (fun _ ht => feed_spread ht level outer) h
    fun q₁ h ha => hr q₁ (h.unspread ha)

theorem agrees_pipeline (hchain : Agrees n .chain)
    (hspread : ∀ m < n, Agrees m (.spread .pipeline)) (ih : ∀ m < n, Agrees m .pipeline) :
    Agrees n .pipeline := by
  intro answer level outer q h0 h
  refine .read (hchain answer level outer q h0 h) fun left q₁ hread => ?_
  obtain ⟨hf, t, hl, hk⟩ := hread
  refine .see hl ?_
  split
  next hpipe =>
    refine .take hf hl fun q₂ hfed => ?_
    obtain ⟨m, hm, hs⟩ := hfed.shift (onFollow_pipe hpipe left level outer)
    refine .read
      (meets_spread (hspread m hm) hs fun q₃ h => ih m hm answer
        { level with piped := left :: level.piped } outer q₃ h0 h)
      fun right q₃ hread => ?_
    obtain ⟨⟨s₀, level₀, hf, hclose, hj, hb, hneg⟩, ha⟩ := hread
    exact .done ⟨⟨s₀, level₀, hf.mono (Nat.le_of_lt hm), hclose, hj, hb, hneg⟩, ha⟩
  next hpipe => exact .done ⟨⟨left, level, hf, rfl, rfl, rfl, h0⟩, t, hl, hk, hpipe⟩

theorem agrees_logicalRest {left : Statement}
    (hspread : ∀ m < n, Agrees m (.spread .pipeline)) (hpipeline : ∀ m < n, Agrees m .pipeline)
    (ih : ∀ m < n, ∀ left, Agrees m (.logicalRest left)) : Agrees n (.logicalRest left) := by
  intro answer before outer q ⟨s₀, level₀, hf, hclose, hb, hneg⟩ ⟨t, hl, hk⟩
  refine .see hl ?_
  split
  next connective hc =>
    refine .take hf hl fun q₁ hfed => ?_
    have hshift := onFollow_connective hc s₀ level₀ outer
    rw [hclose] at hshift
    obtain ⟨m, hm, hs⟩ := hfed.shift hshift
    refine .read
      (meets_spread (hspread m hm) hs fun q₂ h => hpipeline m hm answer
        { level₀ with joined := some (connective, left), piped := [] } outer q₂ hneg h)
      fun right q₂ hread => ?_
    obtain ⟨⟨s₁, level₁, hf, hpipe, hj, hb₁, hneg₁⟩, ha⟩ := hread
    have hjoin : level₁.closeLogical s₁ = connective.join left right := by
      rw [Level.closeLogical, hj, hpipe]
      rfl
    have hjoined : Joined answer m before outer (connective.join left right) q₂ :=
      ⟨s₁, level₁, hf, hjoin, hb₁.trans hb, hneg₁⟩
    refine .read (ih m hm (connective.join left right) answer before outer q₂ hjoined ha)
      fun s q₃ hrest => ?_
    exact .done ⟨hrest.1.mono (Nat.le_of_lt hm), hrest.2⟩
  next hc => exact .done ⟨⟨s₀, level₀, hf, hclose, hb, hneg⟩, t, hl, hk, hc⟩

theorem agrees_logical (hpipeline : Agrees n .pipeline)
    (hrest : ∀ left, Agrees n (.logicalRest left)) : Agrees n .logical := by
  intro answer before outer q h
  refine .read (hpipeline answer ⟨before, none, [], 0⟩ outer q rfl h)
    fun left q₁ hread => ?_
  obtain ⟨⟨s₀, level₀, hf, hclose, hj, hb, hneg⟩, ha⟩ := hread
  have hlogical : level₀.closeLogical s₀ = left := by
    rw [Level.closeLogical, hj]
    exact hclose
  exact .last (hrest left answer before outer q₁ ⟨s₀, level₀, hf, hlogical, hb, hneg⟩ ha)

theorem agrees_inner (hspread : Agrees n (.spread .logical)) (hlogical : Agrees n .logical)
    (hend : ∀ left, Agrees n (.innerEnd left)) : Agrees n .inner := by
  intro answer before parent others q h
  refine .read (meets_spread hspread h fun q₁ h => hlogical answer before _ q₁ h)
    fun left q₁ hread => ?_
  exact .last (hend left answer before parent others q₁ hread.1 hread.2)

theorem agrees_innerEnd {left : Statement}
    (hspread : ∀ m < n, Agrees m (.spread (.innerRest left)))
    (ih : ∀ m < n, Agrees m (.innerRest left)) : Agrees n (.innerEnd left) := by
  intro answer before parent others q ⟨s₀, level₀, hf, hclose, hb, hneg⟩ ⟨t, hl, hk⟩
  subst hb
  have hscope : (Reader.inside (.follow s₀) level₀ (parent :: others)).feed t =
      onScope left level₀ (parent :: others) t := hclose ▸ onFollow_ends hk s₀ level₀ _
  refine .see hl ?_
  split
  next hk =>
    refine .done ⟨_, t, hf, hl, hk, ?_⟩
    rw [hscope, ← close_congr rfl]
    simp [onScope, hk]
  case h_2 hk | h_3 hk =>
    have hshift : onScope left level₀ (parent :: others) t =
        .shift (.inside (.groupSeparated left) level₀ (parent :: others)) := by
      simp [onScope, hk]
    refine .take hf hl fun q₁ hfed => ?_
    obtain ⟨m, hm, hs⟩ := hfed.shift (hscope.trans hshift)
    refine .read (hspread m hm answer _ (Closes answer m level₀.before parent others) q₁ ?_ hs
      fun q₂ h ha => ih m hm answer level₀ parent others q₂ h ha)
      fun _ _ hc => .done (hc.mono (Nat.le_of_lt hm))
    intro u hu
    simp [feed, onStage, hu]
  next =>
    refine .unexpected (hf.refused hl ?_)
    rw [hscope]
    simp only [onScope]

theorem agrees_innerRest {left : Statement} (hinner : Agrees n .inner) :
    Agrees n (.innerRest left) := by
  intro answer level parent others q h ⟨t, hl, hk⟩
  refine .see hl ?_
  split
  next hr =>
    refine .done ⟨_, t, h, hl, hr, ?_⟩
    rw [← close_congr rfl]
    simp [feed, onStage, hr]
  next hr =>
    have hf : (Reader.inside (.groupSeparated left) level (parent :: others)).feed t =
        (Reader.inside (.chain true) (level.separate left) (parent :: others)).feed t := by
      cases hkind : t.kind <;> simp_all [feed, onStage]
    refine .read (hinner answer (left :: level.before) parent others q (h.congr hl hf))
      fun right q₁ hcloses => .done ?_
    obtain ⟨reader, u, hs, hl, hk, hf⟩ := hcloses
    exact ⟨reader, u, hs, hl, hk, hf⟩

theorem agrees_statement (hlogical : Agrees n .logical) (ih : ∀ m < n, Agrees m .statement) :
    Agrees n .statement := by
  intro answer before q h
  refine .read (hlogical answer before [] q h) fun left q₁ hread => ?_
  obtain ⟨⟨s₀, level₀, hf, hclose, hb, hneg⟩, t, hl, hk⟩ := hread
  refine .take hf hl fun q₂ hfed => ?_
  subst hb
  have hscope : (Reader.inside (.follow s₀) level₀ []).feed t = onScope left level₀ [] t :=
    hclose ▸ onFollow_ends hk s₀ level₀ []
  rw [hscope] at hfed
  split
  case h_1 hk | h_2 hk =>
    have haccept : onScope left level₀ [] t = .accept (some (level₀.close left)) := by
      simp [onScope, hk]
    exact .done (hfed.accept haccept)
  next hk =>
    have hshift : onScope left level₀ [] t = .shift (.inside (.separated left) level₀ []) := by
      simp [onScope, hk]
    obtain ⟨m, hm, hs⟩ := hfed.shift hshift
    refine .peek hs fun u q₃ h hl => ?_
    split
    case h_1 hu | h_2 hu =>
      refine .take h hl fun q₄ hfed => .done ?_
      have haccept : (Reader.inside (.separated left) level₀ []).feed u =
          .accept (some (level₀.close (.closed left))) := by
        simp [feed, onStage, hu]
      exact hfed.accept haccept
    next =>
      have hf : (Reader.inside (.separated left) level₀ []).feed u =
          (Reader.inside (.chain false) (level₀.separate left) []).feed u := by
        cases hkind : u.kind <;> simp_all [feed, onStage]
      exact .read (ih m hm answer (left :: level₀.before) q₃ (h.congr hl hf))
        fun _ _ hend => .done hend
  next =>
    have hreject : onScope left level₀ [] t = .reject expectSeparator true := by
      simp only [onScope]
    exact hfed.reject hreject

theorem agrees_start (hstatement : Agrees n .statement) (ih : ∀ m < n, Agrees m .start) :
    Agrees n .start := by
  intro answer q h
  refine .peek h fun t q₁ h hl => ?_
  split
  case h_1 hk | h_2 hk =>
    refine .take h hl fun q₂ hfed => ?_
    have hshift : idle.feed t = .shift .idle := by simp [feed, hk]
    obtain ⟨m, hm, hs⟩ := hfed.shift hshift
    exact .last (ih m hm answer q₂ hs)
  next hk =>
    refine .take h hl fun q₂ hfed => .done ?_
    have haccept : idle.feed t = .accept none := by simp [feed, hk]
    exact hfed.accept haccept
  next =>
    have hf : idle.feed t = (Reader.inside (.chain false) Level.empty []).feed t := by
      cases hkind : t.kind <;> simp_all [feed, onStage]
    exact .read (hstatement answer [] q₁ (h.congr hl hf)) fun _ _ hend => .done hend

/-- The induction is on how much is left to read. A phrase that is read before
anything was taken is read with as much, so the phrases are settled in turn. -/
theorem agrees (n : Nat) {α : Type} (phrase : Production α) : Agrees n phrase := by
  induction n using Nat.strongRecOn generalizing α with
  | ind n ih =>
    have chainRest (left : Option Statement) : Agrees n (.chainRest left) :=
      agrees_chainRest left fun m hm s => ih m hm (.chainRest (some s))
    have operand : Agrees n .operand :=
      agrees_operand (fun m hm head => ih m hm (.words head [])) (fun m hm => ih m hm .inner)
        fun m hm => ih m hm .operand
    have chain : Agrees n .chain := agrees_chain operand chainRest
    have pipeline : Agrees n .pipeline :=
      agrees_pipeline chain (fun m hm => ih m hm (.spread .pipeline)) fun m hm => ih m hm .pipeline
    have logicalRest (left : Statement) : Agrees n (.logicalRest left) :=
      agrees_logicalRest (fun m hm => ih m hm (.spread .pipeline)) (fun m hm => ih m hm .pipeline)
        fun m hm left => ih m hm (.logicalRest left)
    have logical : Agrees n .logical := agrees_logical pipeline logicalRest
    have spread (phrase : Production Statement) : Agrees n (.spread phrase) :=
      agrees_spread fun m hm => ih m hm (.spread phrase)
    have innerEnd (left : Statement) : Agrees n (.innerEnd left) :=
      agrees_innerEnd (fun m hm => ih m hm (.spread (.innerRest left)))
        fun m hm => ih m hm (.innerRest left)
    have inner : Agrees n .inner := agrees_inner (spread .logical) logical innerEnd
    have statement : Agrees n .statement :=
      agrees_statement logical fun m hm => ih m hm .statement
    cases phrase with
    | start => exact agrees_start statement fun m hm => ih m hm .start
    | statement => exact statement
    | inner => exact inner
    | innerEnd left => exact innerEnd left
    | innerRest left => exact agrees_innerRest inner
    | logical => exact logical
    | logicalRest left => exact logicalRest left
    | pipeline => exact pipeline
    | chain => exact chain
    | chainRest left => exact chainRest left
    | redirection left => exact agrees_redirection left
    | operand => exact operand
    | words head latest =>
      exact agrees_words fun m hm word => ih m hm (.words head (word :: latest))
    | spread phrase => exact spread phrase

end Phrases

/-- The productions come to what the queue's reader comes to, and leave the
queue as it does. -/
theorem parses_read (q : TokenQueue) : ∃ calls, Parses q calls q.read.1 q.read.2 := by
  cases he : q.exhausted with
  | true =>
    rw [TokenQueue.read_exhausted he]
    exact ⟨[], .exhausted he⟩
  | false =>
    rw [TokenQueue.read_unexhausted he]
    obtain ⟨calls, r, q', hruns, hpost⟩ :=
      agrees q.size .start (idle.run q) q ⟨rfl, he, Nat.le_refl _⟩
    refine ⟨calls, ?_⟩
    cases r with
    | ok o =>
      rw [hpost]
      exact .started he hruns
    | error failure =>
      rw [hpost]
      exact .started he hruns

theorem read_of_parses {q q' : TokenQueue} {calls : List TokenQueue.Call}
    {r : Except Failure (Option Statement)} (h : Parses q calls r q') : q.read = (r, q') := by
  obtain ⟨others, hother⟩ := parses_read q
  obtain ⟨_, hr, hq⟩ := h.unique hother
  exact Prod.ext hr.symm hq.symm

end Descent

end TinyShell
