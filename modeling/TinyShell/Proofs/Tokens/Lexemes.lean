import TinyShell.Proofs.Redirection.Decoders
import TinyShell.Proofs.Tokens.Spelling

/-!
# Texts of the tokens that are scanned

What a state of the automaton has kept of a token tells how the token goes on.
So a token that a scanner gives has one of the texts of its kind, wherever it
was found; and if it is a redirection operator, then its descriptors can be
read, unless one of them is too large.
-/

set_option autoImplicit false

namespace TinyShell

namespace Scan

inductive Keeps : Scan → Text → Prop
  | gap : Keeps .gap []
  | comment : Keeps .comment []
  | word {text : Text} (hn : text ≠ []) (h : ∀ c ∈ text, isCommandChar c = true) :
      Keeps .word text
  | number {digits : Text} (hn : digits ≠ []) (hd : ∀ d ∈ digits, d.isDigit = true) :
      Keeps .number digits
  | quoted {text : Text} (hq : '"' ∉ text) (hn : '\n' ∉ text) : Keeps .quoted text
  | ampersand {digits : Text} (hd : ∀ d ∈ digits, d.isDigit = true) :
      Keeps .ampersand (digits ++ ['&'])
  | mergeArrow {digits : Text} (hd : ∀ d ∈ digits, d.isDigit = true) :
      Keeps .mergeArrow (digits ++ ['&', '>'])
  | mergeDigits {source target : Text} (hs : ∀ d ∈ source, d.isDigit = true)
      (ht : ∀ d ∈ target, d.isDigit = true) : Keeps .mergeDigits (source ++ '>' :: '&' :: target)
  | bar : Keeps .bar ['|']
  | arrow {digits : Text} (hd : ∀ d ∈ digits, d.isDigit = true) : Keeps .arrow (digits ++ ['>'])

end Scan

def Move.Spells (text : Text) (c : Char) : Move → Prop
  | skip next => next.Keeps text
  | keep next => next.Keeps (text ++ [c])
  | stop (some kind) | close (some kind) => Spelled kind text
  | take (some kind) => Spelled kind (text ++ [c])
  | stop none | close none | take none => False
  | refuse _ => True

theorem Move.Spells.ite {text : Text} {c : Char} {p : Prop} [Decidable p] {a b : Move}
    (ha : p → a.Spells text c) (hb : ¬ p → b.Spells text c) :
    (if p then a else b).Spells text c := by
  by_cases h : p
  · rw [if_pos h]
    exact ha h
  · rw [if_neg h]
    exact hb h

namespace Scan

variable {state : Scan} {text digits : Text} {c : Char} {kind : TokenKind}

theorem forall_mem_concat {p : Char → Prop} (ht : ∀ d ∈ text, p d) (hc : p c) :
    ∀ d ∈ text ++ [c], p d :=
  List.forall_mem_append.mpr ⟨ht, List.forall_mem_singleton.mpr hc⟩

theorem onFirst_spells (c : Char) : (onFirst c).Spells [] c := by
  have plain {kind : TokenKind} {x : Char} (hx : (kind, [x]) ∈ plainOperators) (h : c = x) :
      (Move.take (some kind)).Spells [] c := by
    subst h
    exact .plain hx
  have ampersand (h : c = '&') : Keeps .ampersand [c] := by
    subst h
    exact @Keeps.ampersand [] (by simp)
  have bar (h : c = '|') : Keeps .bar [c] := by
    subst h
    exact .bar
  have arrow (h : c = '>') : Keeps .arrow [c] := by
    subst h
    exact @Keeps.arrow [] (by simp)
  unfold onFirst
  refine .ite (plain (by simp [plainOperators])) fun _ => ?_
  refine .ite (fun _ => .gap) fun _ => ?_
  refine .ite (fun _ => .comment) fun _ => ?_
  refine .ite (fun _ => .quoted (by simp) (by simp)) fun _ => ?_
  refine .ite ampersand fun _ => .ite bar fun _ => .ite arrow fun _ => ?_
  refine .ite (plain (by simp [plainOperators])) fun _ => ?_
  refine .ite (plain (by simp [plainOperators])) fun _ => ?_
  refine .ite (plain (by simp [plainOperators])) fun _ => ?_
  refine .ite (plain (by simp [plainOperators])) fun _ => ?_
  refine .ite (plain (by simp [plainOperators])) fun _ => ?_
  refine .ite (fun h => .number (by simp) (forall_mem_concat (by simp) h)) fun _ => ?_
  exact .ite (fun h => .word (by simp) (forall_mem_concat (by simp) h)) fun _ => trivial

/-- Every move goes on with what the next state can have kept, or ends a token
of which the text is spelled so. -/
theorem onChar_spells (h : state.Keeps text) (c : Char) : (state.onChar c).Spells text c := by
  cases h with
  | gap => exact onFirst_spells c
  | comment =>
    refine .ite (fun h => ?_) fun _ => .comment
    subst h
    exact .plain (by simp [plainOperators])
  | word hn h =>
    exact .ite (fun hc => .word (by simp) (forall_mem_concat h hc)) fun _ => .command hn h
  | number hn hd =>
    have command : ∀ d ∈ text, isCommandChar d = true := fun d h => isCommandChar_of_digit (hd d h)
    refine .ite (fun hc => .number (by simp) (forall_mem_concat hd hc)) fun _ =>
      .ite (fun hc => ?_) fun _ => .ite (fun hc => ?_) fun _ =>
      .ite (fun hc => .word (by simp) (forall_mem_concat command hc)) fun _ => .command hn command
    · subst hc
      exact .arrow hd
    · subst hc
      exact .ampersand hd
  | quoted hq hn =>
    refine .ite (fun _ => .string hq hn) fun hc => .ite (fun _ => trivial) fun hc' => ?_
    refine .quoted (fun hm => ?_) (fun hm => ?_)
    · rcases List.mem_append.mp hm with hm | hm
      · exact hq hm
      · exact hc (List.mem_singleton.mp hm).symm
    · rcases List.mem_append.mp hm with hm | hm
      · exact hn hm
      · exact hc' (List.mem_singleton.mp hm).symm
  | @ampersand digits hd =>
    refine .ite (fun hc => ?_) fun _ => .ite (fun hc => ?_) fun _ => trivial
    · subst hc
      have hs : Spelled .and (digits ++ ['&', '&']) := .numbered hd (by simp [numberedOperators])
      simpa [Move.Spells] using hs
    · subst hc
      simpa [Move.Spells] using Keeps.mergeArrow hd
  | @mergeArrow digits hd =>
    refine .ite (fun hc => ?_) fun _ => .numbered hd (by simp [numberedOperators])
    subst hc
    have hs : Spelled .mergeAppend (digits ++ ['&', '>', '>']) :=
      .numbered hd (by simp [numberedOperators])
    simpa [Move.Spells] using hs
  | mergeDigits hs ht =>
    refine .ite (fun hc => ?_) fun _ => .mergeStream hs ht
    simpa [Move.Spells] using Keeps.mergeDigits hs (forall_mem_concat ht hc)
  | bar =>
    refine .ite (fun hc => ?_) fun _ => .plain (by simp [plainOperators])
    subst hc
    exact .plain (by simp [plainOperators])
  | @arrow digits hd =>
    refine .ite (fun hc => ?_) fun _ => .ite (fun hc => ?_) fun _ =>
      .numbered hd (by simp [numberedOperators])
    · subst hc
      have hs : Spelled .append (digits ++ ['>', '>']) := .numbered hd (by simp [numberedOperators])
      simpa [Move.Spells] using hs
    · subst hc
      simpa [Move.Spells] using @Keeps.mergeDigits digits [] hd (by simp)

theorem onEnd_spells (h : state.Keeps text) (he : state.onEnd = .ok (some kind)) :
    kind = .endOfInput ∨ Spelled kind text := by
  cases h with
  | gap | comment =>
    cases he
    exact .inl rfl
  | quoted | ampersand => cases he
  | word hn h =>
    cases he
    exact .inr (.command hn h)
  | number hn hd =>
    cases he
    exact .inr (.command hn fun d hm => isCommandChar_of_digit (hd d hm))
  | mergeArrow hd | arrow hd =>
    cases he
    exact .inr (.numbered hd (by simp [numberedOperators]))
  | mergeDigits hs ht =>
    cases he
    exact .inr (.mergeStream hs ht)
  | bar =>
    cases he
    exact .inr (.plain (by simp [plainOperators]))

end Scan

def Token.Scanned (t : Token) : Prop := t.kind = .endOfInput ∨ Spelled t.kind t.text

namespace Scanner

variable {start : Position} {text : Text} {state : Scan} {c : Cursor} {s s' : Scanner} {t : Token}

theorem scan_scanned (hk : state.Keeps text) (h : scan start text state c = (.ok t, s)) :
    t.Scanned := by
  fun_induction scan start text state c with
  | case1 => cases h
  | case2 =>
    unfold finish at h
    split at h
    next => cases h
    next he =>
      cases h
      exact Scan.onEnd_spells hk he
    next => cases h
  | case3 _ _ _ _ x _ _ _ next hm ih | case4 _ _ _ _ x _ _ _ next hm ih =>
    have hmove := Scan.onChar_spells hk x
    rw [hm] at hmove
    exact ih hmove h
  | case5 _ _ _ _ x _ _ _ kind hm | case6 _ _ _ _ x _ _ _ kind hm
  | case7 _ _ _ _ x _ _ _ kind hm =>
    have hmove := Scan.onChar_spells hk x
    rw [hm] at hmove
    cases h
    exact .inr hmove
  | case8 => cases h
  | case9 _ _ _ _ _ _ _ hm | case10 _ _ _ _ _ _ _ hm | case11 _ _ _ _ _ _ _ hm =>
    simp [Scan.onChar_ne_none] at hm

theorem next_scanned (h : s.next = (.ok t, s')) : t.Scanned := by
  unfold next at h
  split at h
  next =>
    cases h
    exact .inl rfl
  next => exact scan_scanned .gap h

end Scanner

namespace Operator

def Oversized (text : Text) : Prop :=
  ∃ before digits rest, text = before ++ (digits ++ rest) ∧ (∀ d ∈ digits, d.isDigit = true) ∧
    largest < Text.value digits

end Operator

inductive Token.Unreadable (t : Token) : Prop
  | output (hk : t.kind = .overwrite ∨ t.kind = .append) (h : Operator.output? t.text = none)
  | merge (hk : t.kind = .mergeStream) (h : Operator.merge? t.text = none)

section Operators

variable {t : Token}

theorem Token.Scanned.numbered_text {operator : Text} (h : t.Scanned)
    (ho : (t.kind, operator) ∈ numberedOperators) :
    ∃ digits, (∀ d ∈ digits, d.isDigit = true) ∧ t.text = digits ++ operator := by
  obtain ⟨kind, text, position⟩ := t
  dsimp only [Token.Scanned] at h ho ⊢
  rcases h with rfl | hs
  · simp [numberedOperators] at ho
  cases hs with
  | @numbered _ digits other hd hm =>
    have hsame : other = operator := by
      simp only [numberedOperators, List.mem_cons, Prod.mk.injEq, List.not_mem_nil, or_false]
        at ho hm
      grind
    exact ⟨digits, hd, by rw [hsame]⟩
  | command | string | mergeStream => simp [numberedOperators] at ho
  | plain hm =>
    simp only [numberedOperators, plainOperators, List.mem_cons, Prod.mk.injEq, List.not_mem_nil,
      or_false] at ho hm
    grind

/-- An output operator that was scanned: the arrows are those of its kind. -/
theorem Token.Scanned.output_text (h : t.Scanned) (hk : t.kind = .overwrite ∨ t.kind = .append) :
    ∃ digits, (∀ d ∈ digits, d.isDigit = true) ∧
      t.text = digits ++ Operator.arrows (t.kind == .append) := by
  refine h.numbered_text ?_
  rcases hk with hk | hk <;> simp [hk, numberedOperators, Operator.arrows]

theorem Token.Scanned.merge_text (h : t.Scanned) (hk : t.kind = .mergeStream) :
    ∃ source target, (∀ d ∈ source, d.isDigit = true) ∧ (∀ d ∈ target, d.isDigit = true) ∧
      t.text = source ++ '>' :: '&' :: target := by
  obtain ⟨kind, text, position⟩ := t
  dsimp only [Token.Scanned] at h hk ⊢
  subst hk
  rcases h with he | hs
  · cases he
  cases hs with
  | numbered _ hm => simp [numberedOperators] at hm
  | plain hm => simp [plainOperators] at hm
  | @mergeStream source target hs ht => exact ⟨source, target, hs, ht, rfl⟩

theorem Token.Scanned.oversized (h : t.Scanned) (hu : t.Unreadable) :
    t.kind.isRedirection = true ∧ Operator.Oversized t.text := by
  cases hu with
  | output hk ho =>
    obtain ⟨digits, hd, htext⟩ := h.output_text hk
    rw [htext] at ho ⊢
    refine ⟨by rcases hk with hk | hk <;> rw [hk] <;> rfl, [], digits, _, rfl, hd, ?_⟩
    exact (Operator.output?_eq_none hd).mp ho
  | merge hk ho =>
    obtain ⟨source, target, hs, ht, htext⟩ := h.merge_text hk
    rw [htext] at ho ⊢
    refine ⟨by rw [hk]; rfl, ?_⟩
    rcases (Operator.merge?_eq_none hs ht).mp ho with hv | hv
    · exact ⟨[], source, '>' :: '&' :: target, rfl, hs, hv⟩
    · exact ⟨source ++ ['>', '&'], target, [], by simp, ht, hv⟩

end Operators

end TinyShell
