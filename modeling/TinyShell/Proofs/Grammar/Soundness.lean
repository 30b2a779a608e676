import TinyShell.Proofs.Grammar.Derivation

/-!
# What a reader has read

A reader stands for the tokens it has used up: every field of its scopes, and
its stage, is a piece of a derivation that is not finished yet. One token keeps
this, and a token that ends a statement completes a derivation of it.
-/

set_option autoImplicit false

namespace TinyShell.Grammar

def Gap (nested : Bool) (ns : List Token) : Prop := Newlines ns ∧ (nested = false → ns = [])

def Separates (nested : Bool) (t : Token) : Prop :=
  t.kind = .semicolon ∨ (nested = true ∧ t.kind = .newline)

inductive Before (nested : Bool) : List Statement → List Token → Prop
  | start {ns : List Token} (hn : Gap nested ns) : Before nested [] ns
  | next {sep : Token} {ls : List Statement} {w ts ns : List Token} {l : Statement}
      (h : Before nested ls w) (hl : Derives .logical ts l) (hs : Separates nested sep)
      (hn : Gap nested ns) : Before nested (l :: ls) (w ++ (ts ++ sep :: ns))

def Joined : Option (Connective × Statement) → List Token → Prop
  | none, w => w = []
  | some (c, l), w => ∃ ts op ns, w = ts ++ op :: ns ∧ Derives .logical ts l ∧
      Connective.ofKind? op.kind = some c ∧ Newlines ns

inductive Piped : List Statement → List Token → Prop
  | nil : Piped [] []
  | cons {bar : Token} {ls : List Statement} {w ts ns : List Token} {l : Statement}
      (h : Piped ls w) (hl : Derives .chain ts l) (hb : bar.kind = .pipe) (hn : Newlines ns) :
      Piped (l :: ls) (w ++ (ts ++ bar :: ns))

def Negated (n : Nat) (w : List Token) : Prop := w.length = n ∧ ∀ t ∈ w, t.kind = .not

def Opened (nested : Bool) (level : Level) (w : List Token) : Prop :=
  ∃ wb wj wp wn, w = wb ++ (wj ++ (wp ++ wn)) ∧ Before nested level.before wb ∧
    Joined level.joined wj ∧ Piped level.piped wp ∧ Negated level.negations wn

theorem gap_nil (nested : Bool) : Gap nested [] := ⟨newlines_nil, fun _ => rfl⟩

theorem gap_newline {ns : List Token} {t : Token} (hn : Gap true ns) (ht : t.kind = .newline) :
    Gap true (ns ++ [t]) :=
  ⟨newlines_append hn.1 (newlines_singleton ht), by simp⟩

theorem opened_empty (nested : Bool) : Opened nested Level.empty [] :=
  ⟨[], [], [], [], rfl, .start (gap_nil nested), rfl, .nil, rfl, by simp⟩

theorem derives_negated {n : Nat} {w ts : List Token} {s : Statement} (hw : Negated n w)
    (h : Derives .operand ts s) : Derives .operand (w ++ ts) (Nat.repeat .not n s) := by
  obtain ⟨rfl, hw⟩ := hw
  induction w with
  | nil => exact h
  | cons t w ih => exact .not (hw t (by simp)) (ih fun u hu => hw u (by simp [hu]))

theorem derives_piped {ls : List Statement} {w ts : List Token} {s : Statement}
    (hw : Piped ls w) (h : Derives .pipeline ts s) :
    Derives .pipeline (w ++ ts) (ls.foldl (fun right left => .pipeline left right) s) := by
  induction hw generalizing ts s with
  | nil => exact h
  | cons _ hl hb hn ih =>
    have hp := ih (.pipe hl hb hn h)
    simpa using hp

theorem derives_joined {level : Level} {wj wp ts : List Token} {s : Statement}
    (hj : Joined level.joined wj) (hp : Piped level.piped wp) (h : Derives .chain ts s) :
    Derives .logical (wj ++ (wp ++ ts)) (level.closeLogical s) := by
  have hc : Derives .pipeline (wp ++ ts) (level.closePipeline s) := derives_piped hp (.single h)
  unfold Level.closeLogical
  cases hl : level.joined with
  | none =>
    rw [hl] at hj
    rw [show wj = [] from hj]
    exact .alone hc
  | some joined =>
    obtain ⟨c, l⟩ := joined
    rw [hl] at hj
    obtain ⟨us, op, ns, rfl, hd, hk, hn⟩ := hj
    rw [List.append_assoc, List.cons_append]
    cases c with
    | and => exact .and hd (by cases ho : op.kind <;> simp_all [Connective.ofKind?]) hn hc
    | or => exact .or hd (by cases ho : op.kind <;> simp_all [Connective.ofKind?]) hn hc

theorem separates_nested {t : Token} (h : Separates true t) : IsSeparator t := by
  rcases h with h | ⟨_, h⟩
  · exact .inl h
  · exact .inr h

theorem separates_outer {t : Token} (h : Separates false t) : t.kind = .semicolon := by
  rcases h with h | ⟨h, _⟩
  · exact h
  · exact absurd h (by decide)

theorem derives_before_inner {ls : List Statement} {w ts : List Token} {s : Statement}
    (hw : Before true ls w) (h : Derives .inner ts s) :
    Derives .inner (w ++ ts) (ls.foldl (fun right left => .sequence left right) s) := by
  induction hw generalizing ts s with
  | start hn => exact derives_inner_newlines hn.1 h
  | next _ hl hs hn ih =>
    have hi := ih (.innerSequence newlines_nil hl (separates_nested hs) hn.1 h)
    simpa using hi

theorem derives_before_statement {ls : List Statement} {w ts : List Token} {s : Statement}
    (hw : Before false ls w) (h : Derives .statement ts s) :
    Derives .statement (w ++ ts) (ls.foldl (fun right left => .sequence left right) s) := by
  induction hw generalizing ts s with
  | start hn =>
    rw [hn.2 rfl]
    exact h
  | next _ hl hs hn ih =>
    have hi := ih (.sequence hl (separates_outer hs) h)
    simpa [hn.2 rfl] using hi

theorem before_newline {ls : List Statement} {w : List Token} {t : Token}
    (h : Before true ls w) (ht : t.kind = .newline) : Before true ls (w ++ [t]) := by
  cases h with
  | start hn => exact .start (gap_newline hn ht)
  | next h hl hs hn =>
    rw [List.append_assoc, List.append_assoc, List.cons_append]
    exact .next h hl hs (gap_newline hn ht)

def Spread (nested : Bool) (level : Level) : Prop :=
  level.negations = 0 ∧ (nested = true ∨ level.joined ≠ none ∨ level.piped ≠ [])

theorem opened_newline {nested : Bool} {level : Level} {w : List Token} {t : Token}
    (h : Opened nested level w) (hs : Spread nested level) (ht : t.kind = .newline) :
    Opened nested level (w ++ [t]) := by
  obtain ⟨wb, wj, wp, wn, rfl, hb, hj, hp, hn⟩ := h
  obtain ⟨h0, hs⟩ := hs
  have hwn : wn = [] := List.length_eq_zero_iff.mp (hn.1.trans h0)
  subst hwn
  -- The newline belongs to whatever stands last: a bar, a connective, or the scope.
  cases hpl : level.piped with
  | cons l ls =>
    rw [hpl] at hp
    cases hp with
    | @cons bar _ w ts ns _ hp hl hk hm =>
      refine ⟨wb, wj, w ++ (ts ++ bar :: (ns ++ [t])), [], by simp, hb, hj, ?_, hn⟩
      rw [hpl]
      exact .cons hp hl hk (newlines_append hm (newlines_singleton ht))
  | nil =>
    rw [hpl] at hp
    cases hp
    cases hjl : level.joined with
    | some joined =>
      obtain ⟨c, l⟩ := joined
      rw [hjl] at hj
      obtain ⟨ts, op, ns, rfl, hd, hk, hm⟩ := hj
      refine ⟨wb, ts ++ op :: (ns ++ [t]), [], [], by simp, hb, ?_, by rw [hpl]; exact .nil, hn⟩
      rw [hjl]
      exact ⟨ts, op, _, rfl, hd, hk, newlines_append hm (newlines_singleton ht)⟩
    | none =>
      rw [hjl] at hj
      have hwj : wj = [] := hj
      subst hwj
      have hnested : nested = true := by simpa [hpl, hjl] using hs
      subst hnested
      refine ⟨wb ++ [t], [], [], [], by simp, before_newline hb ht, ?_, ?_, hn⟩
      · rw [hjl]; rfl
      · rw [hpl]; exact .nil

def Wrapped : Option Statement → List Token → Prop
  | none, w => w = []
  | some s, w => Derives .chain w s

theorem derives_around {left : Option Statement} {w us : List Token} {r : Redirection}
    (hw : Wrapped left w) (hr : Redirects us r) : Derives .chain (w ++ us) (r.around left) := by
  cases left with
  | none =>
    rw [show w = [] from hw]
    exact .bare hr
  | some s => exact .redirect hw hr

def StageReached (nested : Bool) (level : Level) : Stage → List Token → Prop
  | .chain spread, w =>
    Opened nested level w ∧ level.negations = 0 ∧ (spread = true → Spread nested level)
  | .operand, w => Opened nested level w
  | .words head latest, w => ∃ wl, w = wl ++ head :: latest.reverse ∧ Opened nested level wl ∧
      head.kind.isWord = true ∧ ∀ t ∈ latest, t.kind.isWord = true
  | .target arrow left, w => ∃ wl wc op, w = wl ++ (wc ++ [op]) ∧ Opened nested level wl ∧
      level.negations = 0 ∧ Wrapped left wc ∧ Opens op fun e => arrow.onto e
  | .follow s, w => ∃ wl wc, w = wl ++ wc ∧ Opened nested level wl ∧ level.negations = 0 ∧
      Derives .chain wc s
  | .separated s, w => nested = false ∧ ∃ wb ws semi, w = wb ++ (ws ++ [semi]) ∧
      Before nested level.before wb ∧ Derives .logical ws s ∧ semi.kind = .semicolon
  | .groupSeparated s, w => nested = true ∧ ∃ wb ws sep ns, w = wb ++ (ws ++ sep :: ns) ∧
      Before nested level.before wb ∧ Derives .logical ws s ∧ IsSeparator sep ∧ Newlines ns

inductive Enclosing : List Level → List Token → Prop
  | nil : Enclosing [] []
  | cons {paren : Token} {level : Level} {outer : List Level} {w wl : List Token}
      (h : Enclosing outer w) (hl : Opened (!outer.isEmpty) level wl)
      (hp : paren.kind = .leftParen) : Enclosing (level :: outer) (w ++ (wl ++ [paren]))

def Reached : Reader → List Token → Prop
  | .idle, w => w = []
  | .inside stage level outer, w => ∃ we ws, w = we ++ ws ∧ Enclosing outer we ∧
      StageReached (!outer.isEmpty) level stage ws

def Justified : Verdict → List Token → Prop
  | .shift reader, w => Reached reader w
  | .accept none, _ => False
  | .accept (some s), w => Derives .statement w s
  | .reject _ _, _ => True

section Step

variable {level : Level} {outer : List Level} {we wl : List Token} (t : Token)

theorem onOperand_justified (he : Enclosing outer we) (hl : Opened (!outer.isEmpty) level wl) :
    Justified (Reader.onOperand level outer t) (we ++ (wl ++ [t])) := by
  unfold Reader.onOperand
  split
  next hk => exact ⟨we, _, rfl, he, wl, rfl, hl, by rw [hk]; rfl, by simp⟩
  next hk => exact ⟨we, _, rfl, he, wl, rfl, hl, by rw [hk]; rfl, by simp⟩
  next hk =>
    obtain ⟨wb, wj, wp, wn, rfl, hb, hj, hp, hn⟩ := hl
    refine ⟨we, _, rfl, he, wb, wj, wp, wn ++ [t], by simp, hb, hj, hp, by simp [hn.1], ?_⟩
    intro u hu
    rcases List.mem_append.mp hu with hu | hu
    · exact hn.2 u hu
    · rw [List.mem_singleton.mp hu]
      exact hk
  next hk =>
    refine ⟨we ++ (wl ++ [t]), [], by simp, .cons he hl hk, opened_empty _, rfl, fun _ => ?_⟩
    exact ⟨rfl, .inl rfl⟩
  next => trivial

theorem awaitTarget_justified {arrow : Arrow} {left : Option Statement} {wc : List Token}
    (he : Enclosing outer we) (hl : Opened (!outer.isEmpty) level wl) (h0 : level.negations = 0)
    (hw : Wrapped left wc) (ho : Opens t fun e => arrow.onto e) :
    Justified (Reader.awaitTarget arrow left level outer) (we ++ (wl ++ (wc ++ [t]))) :=
  ⟨we, _, rfl, he, wl, wc, t, rfl, hl, h0, hw, ho⟩

theorem onRedirection_justified {left : Option Statement} {wc : List Token} {v : Verdict}
    (he : Enclosing outer we) (hl : Opened (!outer.isEmpty) level wl) (h0 : level.negations = 0)
    (hw : Wrapped left wc) (h : Reader.onRedirection left level outer t = some v) :
    Justified v (we ++ (wl ++ (wc ++ [t]))) := by
  have hf (arrow : Arrow) (ho : Opens t fun e => arrow.onto e) :
      Justified (Reader.awaitTarget arrow left level outer) (we ++ (wl ++ (wc ++ [t]))) :=
    awaitTarget_justified t he hl h0 hw ho
  unfold Reader.onRedirection at h
  split at h
  next hk =>
    split at h
    next => cases h; trivial
    next ho => cases h; exact hf _ (.overwrite (.inl hk) ho)
    next ho => cases h; exact hf _ (.append (.inl hk) ho)
  next hk =>
    split at h
    next => cases h; trivial
    next ho => cases h; exact hf _ (.overwrite (.inr hk) ho)
    next ho => cases h; exact hf _ (.append (.inr hk) ho)
  next hk => cases h; exact hf _ (.mergeOutput hk)
  next hk => cases h; exact hf _ (.mergeAppend hk)
  next hk => cases h; exact hf _ (.input hk)
  next hk =>
    split at h
    next => cases h; trivial
    next source destination ho =>
      cases h
      refine ⟨we, _, rfl, he, wl, wc ++ [t], rfl, hl, h0, ?_⟩
      rw [mergeOf_given]
      exact derives_around hw (.merge hk ho)
  next => cases h

theorem onChain_justified (he : Enclosing outer we) (hl : Opened (!outer.isEmpty) level wl)
    (h0 : level.negations = 0) : Justified (Reader.onChain level outer t) (we ++ (wl ++ [t])) := by
  unfold Reader.onChain
  cases hr : Reader.onRedirection none level outer t with
  | none => exact onOperand_justified t he hl
  | some v => exact onRedirection_justified t he hl h0 (show Wrapped none [] from rfl) hr

theorem closeGroup_justified {parent : Level} {others : List Level} {wi : List Token}
    {s : Statement} (he : Enclosing (parent :: others) we) (hi : Derives .inner wi s)
    (ht : t.kind = .rightParen) :
    Justified (Reader.closeGroup s parent others) (we ++ (wi ++ [t])) := by
  cases he with
  | @cons paren _ _ w wl he hl hp =>
    obtain ⟨wb, wj, wp, wn, rfl, hb, hj, hpp, hn⟩ := hl
    refine ⟨w, wb ++ (wj ++ wp) ++ (wn ++ paren :: (wi ++ [t])), by simp, he, _, _, rfl, ?_, rfl,
      .plain (derives_negated hn (.group hp hi ht))⟩
    exact ⟨wb, wj, wp, [], by simp, hb, hj, hpp, rfl, by simp⟩

theorem onScope_justified {wb ws : List Token} {s : Statement} (he : Enclosing outer we)
    (hb : Before (!outer.isEmpty) level.before wb) (hs : Derives .logical ws s) :
    Justified (Reader.onScope s level outer t) (we ++ (wb ++ (ws ++ [t]))) := by
  unfold Reader.onScope
  split
  next =>
    cases he
    have accepted (hend : IsEnd t) : Derives .statement (wb ++ (ws ++ [t])) (level.close s) :=
      derives_before_statement hb (.ended hs hend)
    split
    next hk => exact accepted (.inl hk)
    next hk => exact accepted (.inr hk)
    next hk => exact ⟨[], _, rfl, .nil, rfl, wb, ws, t, rfl, hb, hs, hk⟩
    next => trivial
  next parent others =>
    split
    next hk =>
      rw [← List.append_assoc wb]
      exact closeGroup_justified t he (derives_before_inner hb (.inner newlines_nil hs)) hk
    next hk => exact ⟨we, _, rfl, he, rfl, wb, ws, t, [], rfl, hb, hs, .inl hk, newlines_nil⟩
    next hk => exact ⟨we, _, rfl, he, rfl, wb, ws, t, [], rfl, hb, hs, .inr hk, newlines_nil⟩
    next => trivial

theorem onFollow_justified {wc : List Token} {s : Statement} (he : Enclosing outer we)
    (hl : Opened (!outer.isEmpty) level wl) (h0 : level.negations = 0)
    (hs : Derives .chain wc s) :
    Justified (Reader.onFollow s level outer t) (we ++ (wl ++ (wc ++ [t]))) := by
  unfold Reader.onFollow
  split
  next hr => exact onRedirection_justified t he hl h0 (show Wrapped (some s) wc from hs) hr
  next =>
    obtain ⟨wb, wj, wp, wn, rfl, hb, hj, hp, hn⟩ := hl
    have hwn : wn = [] := List.length_eq_zero_iff.mp (hn.1.trans h0)
    subst hwn
    split
    next hk =>
      refine ⟨we, _, rfl, he, ⟨wb, wj, wp ++ (wc ++ [t]), [], by simp, hb, hj, ?_, hn⟩, h0,
        fun _ => ⟨h0, .inr (.inr (List.cons_ne_nil _ _))⟩⟩
      exact .cons hp hs hk newlines_nil
    next =>
      have hd := derives_joined hj hp hs
      split
      next hc =>
        refine ⟨we, _, rfl, he, ⟨wb, wj ++ (wp ++ wc) ++ [t], [], [], by simp, hb, ?_, .nil, hn⟩,
          h0, fun _ => ⟨h0, .inr (.inl (Option.some_ne_none _))⟩⟩
        exact ⟨_, t, [], rfl, hd, hc, newlines_nil⟩
      next =>
        have hj := onScope_justified t he hb hd
        simpa using hj

end Step

theorem derives_ofWords {head : Token} {latest : List Token} (hh : head.kind.isWord = true)
    (hl : ∀ t ∈ latest, t.kind.isWord = true) :
    Derives .operand (head :: latest.reverse) (.atom (.ofWords head latest)) := by
  unfold Expression.ofWords
  cases latest with
  | nil => exact .word hh
  | cons last others =>
    exact .words hh (by simp) fun t ht => hl t (List.mem_reverse.mp ht)

theorem onStage_justified {stage : Stage} {level : Level} {outer : List Level}
    {we ws : List Token} (he : Enclosing outer we)
    (h : StageReached (!outer.isEmpty) level stage ws) (t : Token) :
    Justified (Reader.onStage stage level outer t) (we ++ (ws ++ [t])) := by
  cases stage with
  | chain spread =>
    obtain ⟨hl, h0, hs⟩ := h
    simp only [Reader.onStage]
    split
    next hk =>
      obtain ⟨hspread, hk⟩ := (Bool.and_eq_true _ _).mp hk
      exact ⟨we, _, rfl, he, opened_newline hl (hs hspread) (eq_of_beq hk), h0, hs⟩
    next => exact onChain_justified t he hl h0
  | operand => exact onOperand_justified t he h
  | words head latest =>
    obtain ⟨wl, rfl, hl, hh, hw⟩ := h
    simp only [Reader.onStage]
    split
    next hk =>
      refine ⟨we, _, rfl, he, wl, by simp, hl, hh, ?_⟩
      intro u hu
      rcases List.mem_cons.mp hu with rfl | hu
      · exact hk
      · exact hw u hu
    next =>
      obtain ⟨wb, wj, wp, wn, rfl, hb, hj, hp, hn⟩ := hl
      have hd : Derives .operand (wn ++ head :: latest.reverse)
          (level.negate (.atom (.ofWords head latest))) :=
        derives_negated hn (derives_ofWords hh hw)
      have hl : Opened (!outer.isEmpty) { level with negations := 0 } (wb ++ (wj ++ wp)) :=
        ⟨wb, wj, wp, [], by simp, hb, hj, hp, rfl, by simp⟩
      have hj := onFollow_justified t he hl rfl (.plain hd)
      simpa using hj
  | target arrow left =>
    obtain ⟨wl, wc, op, rfl, hl, h0, hw, ho⟩ := h
    simp only [Reader.onStage]
    split
    next hk =>
      refine ⟨we, _, rfl, he, wl, wc ++ [op, t], by simp, hl, h0, ?_⟩
      exact derives_around hw (.file ho hk)
    next => trivial
  | follow s =>
    obtain ⟨wl, wc, rfl, hl, h0, hs⟩ := h
    rw [List.append_assoc]
    exact onFollow_justified t he hl h0 hs
  | separated s =>
    obtain ⟨hn, wb, wsep, semi, rfl, hb, hs, hk⟩ := h
    have hnext : Opened (!outer.isEmpty) (level.separate s) (wb ++ (wsep ++ [semi])) :=
      ⟨_, [], [], [], by simp, .next hb hs (.inl hk) (gap_nil _), rfl, .nil, rfl, by simp⟩
    have ho : outer = [] := by simpa using hn
    subst ho
    cases he
    have accepted (hend : IsEnd t) : Derives .statement (wb ++ (wsep ++ [semi]) ++ [t])
        (level.close (.closed s)) := by
      have hd := derives_before_statement hb (.closed hs hk hend)
      rwa [List.append_assoc, List.append_assoc]
    simp only [Reader.onStage]
    split
    next ht => exact accepted (.inl ht)
    next ht => exact accepted (.inr ht)
    next => exact onChain_justified t .nil hnext rfl
  | groupSeparated s =>
    obtain ⟨hn, wb, wsep, sep, ns, rfl, hb, hs, hk, hm⟩ := h
    have hsep : Separates (!outer.isEmpty) sep := by
      rcases hk with hk | hk
      · exact .inl hk
      · exact .inr ⟨hn, hk⟩
    have hgap : Gap (!outer.isEmpty) ns := ⟨hm, fun hf => by rw [hn] at hf; cases hf⟩
    simp only [Reader.onStage]
    split
    next ht =>
      refine ⟨we, _, rfl, he, hn, wb, wsep, sep, ns ++ [t], by simp, hb, hs, hk, ?_⟩
      exact newlines_append hm (newlines_singleton ht)
    next parent others ht =>
      exact closeGroup_justified t he
        (derives_before_inner hb (.innerClosed newlines_nil hs hk hm)) ht
    next =>
      refine onChain_justified t he ?_ rfl
      exact ⟨_, [], [], [], by simp, .next hb hs hsep hgap, rfl, .nil, rfl, by simp⟩

def leads (t : Token) : Bool := t.kind == .newline || t.kind == .semicolon

/-- Feeding a token inside a statement, or the first one of a statement. -/
theorem feed_justified {reader : Reader} {w : List Token} (h : Reached reader w) {t : Token}
    (ht : (leads t = false ∧ t.kind ≠ .endOfInput) ∨ reader ≠ .idle) :
    Justified (reader.feed t) (w ++ [t]) := by
  cases reader with
  | idle =>
    obtain ⟨hl, he⟩ : leads t = false ∧ t.kind ≠ .endOfInput := by simpa using ht
    have hd : Justified (Reader.onChain Level.empty [] t) ([] ++ ([] ++ [t])) :=
      onChain_justified t .nil (opened_empty false) rfl
    rw [show w = [] from h]
    simp only [Reader.feed]
    split
    next hk => simp [leads, hk] at hl
    next hk => simp [leads, hk] at hl
    next hk => exact absurd hk he
    next => exact hd
  | inside stage level outer =>
    obtain ⟨we, ws, rfl, he, hs⟩ := h
    rw [List.append_assoc]
    exact onStage_justified he hs t

end TinyShell.Grammar
