import Mathlib.Control.Monad.Basic
import TinyShell.Proofs.Tokens.Along

/-!
# Nothing is lost between tokens

If an input can be cut into tokens up to its end, then it is the row of these
tokens with gaps of blanks and comments before them, and every token has the
position at which it stands there.
-/

set_option autoImplicit false

namespace TinyShell

def TokenKind.isPlain : TokenKind → Bool
  | string | newline | endOfInput => false
  | _ => true

namespace Scan

def isPlain : Scan → Bool
  | gap | comment | quoted => false
  | _ => true

inductive PlainMove : Move → Prop
  | keep {next : Scan} (h : next.isPlain = true) : PlainMove (.keep next)
  | stop {kind : TokenKind} (h : kind.isPlain = true) : PlainMove (.stop (some kind))
  | take {kind : TokenKind} (h : kind.isPlain = true) : PlainMove (.take (some kind))
  | refuse (expected : Text) : PlainMove (.refuse expected)

theorem PlainMove.ite {p : Prop} [Decidable p] {m m' : Move} (h : PlainMove m)
    (h' : PlainMove m') : PlainMove (if p then m else m') := by
  by_cases hp : p <;> simp [hp, h, h']

theorem onChar_plain {state : Scan} (h : state.isPlain = true) (c : Char) :
    PlainMove (onChar state c) := by
  cases state with
  | gap | comment | quoted => cases h
  | word => exact .ite (.keep rfl) (.stop rfl)
  | number =>
    exact .ite (.keep rfl) (.ite (.keep rfl) (.ite (.keep rfl) (.ite (.keep rfl) (.stop rfl))))
  | ampersand => exact .ite (.take rfl) (.ite (.keep rfl) (.refuse _))
  | mergeArrow => exact .ite (.take rfl) (.stop rfl)
  | mergeDigits => exact .ite (.keep rfl) (.stop rfl)
  | bar => exact .ite (.take rfl) (.stop rfl)
  | arrow => exact .ite (.take rfl) (.ite (.keep rfl) (.stop rfl))

/-- What the automaton can do with the first character after the blanks. -/
theorem onFirst_cases {c : Char} (h : Text.isSpace c ≠ true) :
    c = '\n' ∧ onFirst c = .take (some .newline) ∨ c = '#' ∧ onFirst c = .skip comment ∨
      c = '"' ∧ onFirst c = .skip quoted ∨ PlainMove (onFirst c) := by
  by_cases hn : c = '\n'
  · exact .inl ⟨hn, by simp [onFirst, hn]⟩
  have hb : Text.isBlank c ≠ true := fun hb => h (by simp [Text.isSpace, hb, hn])
  by_cases hc : c = '#'
  · subst hc
    exact .inr (.inl ⟨rfl, by decide⟩)
  by_cases hq : c = '"'
  · subst hq
    exact .inr (.inr (.inl ⟨rfl, by decide⟩))
  refine .inr (.inr (.inr ?_))
  simp only [onFirst, if_neg hn, if_neg hb, if_neg hc, if_neg hq]
  repeat' apply PlainMove.ite
  all_goals first | exact .keep rfl | exact .take rfl | exact .refuse _

variable {state : Scan} {text kept left : Text} {kind : TokenKind}

theorem along_plain (hs : state.isPlain = true) (h : state.along text = some (kind, kept, left)) :
    text = kept ++ left ∧ kind.isPlain = true := by
  induction text generalizing state kept with
  | nil =>
    cases state with
    | gap | comment | quoted => cases hs
    | ampersand => cases h
    | _ =>
      cases h
      exact ⟨rfl, rfl⟩
  | cons c text ih =>
    have hmove := onChar_plain hs c
    simp only [along] at h
    cases hm : state.onChar c with
    | keep next =>
      rw [hm] at h hmove
      obtain ⟨⟨kind', kept', left'⟩, hk, heq⟩ := Option.map_eq_some_iff.mp h
      cases heq
      cases hmove with
      | keep hnext =>
        obtain ⟨rfl, hkind⟩ := ih hnext hk
        exact ⟨rfl, hkind⟩
    | stop _ | take _ =>
      rw [hm] at h hmove
      cases hmove
      cases h
      exact ⟨rfl, by assumption⟩
    | skip _ | close _ =>
      rw [hm] at hmove
      cases hmove
    | refuse _ =>
      rw [hm] at h
      cases h

theorem along_quoted (h : quoted.along text = some (kind, kept, left)) :
    text = kept ++ '"' :: left ∧ kind = .string := by
  induction text generalizing kept with
  | nil => cases h
  | cons c text ih =>
    simp only [along, onChar] at h
    by_cases hq : c = '"'
    · simp only [if_pos hq] at h
      cases h
      exact ⟨by simp [hq], rfl⟩
    by_cases hn : c = '\n'
    · simp [hn] at h
    · simp only [if_neg hq, if_neg hn] at h
      obtain ⟨⟨kind', kept', left'⟩, hk, heq⟩ := Option.map_eq_some_iff.mp h
      cases heq
      obtain ⟨rfl, hkind⟩ := ih hk
      exact ⟨rfl, hkind⟩

theorem along_comment (h : comment.along text = some (kind, kept, left)) :
    ∃ body, '\n' ∉ body ∧ text = body ++ (kept ++ left) ∧
      (kind = .newline ∧ kept = ['\n'] ∨ kind = .endOfInput ∧ kept = [] ∧ left = []) := by
  induction text with
  | nil =>
    cases h
    exact ⟨[], by simp⟩
  | cons c text ih =>
    simp only [along, onChar] at h
    by_cases hn : c = '\n'
    · simp only [if_pos hn] at h
      cases h
      exact ⟨[], by simp [hn]⟩
    · simp only [if_neg hn] at h
      obtain ⟨body, hbody, rfl, hkind⟩ := ih h
      exact ⟨c :: body, by simp [Ne.symm hn, hbody], rfl, hkind⟩

theorem source_of_plain {t : Token} (h : t.kind.isPlain = true) :
    t.source = t.text ∧ t.kind ≠ .endOfInput := by
  constructor
  · rw [Token.source, if_neg]
    intro hs
    rw [hs] at h
    cases h
  · intro he
    rw [he] at h
    cases h

theorem along_begun {c : Char} (hm : PlainMove (onFirst c))
    (h : gap.along (c :: text) = some (kind, kept, left)) :
    c :: text = kept ++ left ∧ kind.isPlain = true ∧ kept ≠ [] := by
  simp only [along, onChar] at h
  cases hf : onFirst c with
  | keep next =>
    rw [hf] at h hm
    obtain ⟨⟨kind', kept', left'⟩, hk, heq⟩ := Option.map_eq_some_iff.mp h
    cases heq
    cases hm with
    | keep hnext =>
      obtain ⟨rfl, hkind⟩ := along_plain hnext hk
      exact ⟨rfl, hkind, by simp⟩
  | take found =>
    rw [hf] at h hm
    cases hm with
    | take hk =>
      cases h
      exact ⟨rfl, hk, by simp⟩
  | stop found => exact absurd hf (onChar_gap_ne_stop c found)
  | skip _ | close _ =>
    rw [hf] at hm
    cases hm
  | refuse _ =>
    rw [hf] at h
    cases h

theorem along_first {t : Token} {c : Char} (hc : Text.isSpace c ≠ true)
    (h : gap.along (c :: text) = some (t.kind, t.text, left)) :
    ∃ comment, (∀ body, comment = some body → '\n' ∉ body ∧
        (t.kind = .newline ∨ t.kind = .endOfInput)) ∧
      c :: text = Piece.remark comment ++ (t.source ++ left) ∧
      (t.kind ≠ .endOfInput → t.source ≠ []) ∧
      (t.kind = .endOfInput → t.text = [] ∧ left = []) := by
  rcases onFirst_cases hc with ⟨rfl, hm⟩ | ⟨rfl, hm⟩ | ⟨rfl, hm⟩ | hm
  · simp only [along, onChar, hm, Option.some.injEq, Prod.mk.injEq] at h
    obtain ⟨hkind, htext, rfl⟩ := h
    have hsource : t.source = ['\n'] := by rw [Token.source, ← hkind, ← htext]; rfl
    exact ⟨none, by simp, by rw [hsource]; rfl, by simp [hsource], by simp [← hkind]⟩
  · simp only [along, onChar, hm] at h
    obtain ⟨body, hbody, rfl, hend⟩ := along_comment h
    have hsource : t.source = t.text := by
      rw [Token.source, if_neg]
      rcases hend with ⟨hk, _⟩ | ⟨hk, _⟩ <;> simp [hk]
    refine ⟨some body, ?_, by rw [hsource]; rfl, fun hne => ?_, fun he => ?_⟩
    · rintro other heq
      cases heq
      exact ⟨hbody, hend.imp And.left And.left⟩
    · rcases hend with ⟨_, ht⟩ | ⟨hk, _⟩
      · simp [hsource, ht]
      · exact absurd hk hne
    · rcases hend with ⟨hk, _⟩ | ⟨_, hempty⟩
      · rw [he] at hk
        cases hk
      · exact hempty
  · simp only [along, onChar, hm] at h
    obtain ⟨rfl, hkind⟩ := along_quoted h
    have hsource : t.source = '"' :: t.text ++ ['"'] := by rw [Token.source, if_pos hkind]
    exact ⟨none, by simp, by simp [hsource, Piece.remark], by simp [hsource], by simp [hkind]⟩
  · obtain ⟨htext, hkind, hne⟩ := along_begun hm h
    obtain ⟨hsource, hend⟩ := source_of_plain hkind
    exact ⟨none, by simp, by rw [hsource]; exact htext, by simp [hsource, hne],
      fun he => absurd he hend⟩

/-- The first token of a text, with the gap before it, and what is left after
it. -/
theorem along_piece {t : Token} (h : gap.along text = some (t.kind, t.text, left)) :
    ∃ comment, Piece.Laid ⟨text.takeWhile Text.isSpace, comment, t⟩ ∧
      text = Piece.text ⟨text.takeWhile Text.isSpace, comment, t⟩ ++ left ∧
      (t.kind ≠ .endOfInput → t.source ≠ []) ∧
      (t.kind = .endOfInput → t.text = [] ∧ left = []) := by
  induction text with
  | nil =>
    simp only [along, onEnd, Option.some.injEq, Prod.mk.injEq] at h
    obtain ⟨hkind, htext, rfl⟩ := h
    refine ⟨none, ⟨by simp, by simp⟩, ?_, fun hne => absurd hkind.symm hne,
      fun _ => ⟨htext.symm, rfl⟩⟩
    simp [Piece.text, Piece.gap, Piece.remark, Token.source, ← hkind, ← htext]
  | cons c text ih =>
    by_cases hc : Text.isSpace c = true
    · simp only [along, onChar_space hc] at h
      obtain ⟨comment, hlaid, htext, hsolid, hend⟩ := ih h
      rw [List.takeWhile_cons_of_pos hc]
      refine ⟨comment, ⟨?_, hlaid.comment⟩, congrArg (List.cons c) htext, hsolid, hend⟩
      intro d hd
      rcases List.mem_cons.mp hd with rfl | hd
      · exact hc
      · exact hlaid.blanks d hd
    · obtain ⟨comment, hcomment, htext, hsolid, hend⟩ := along_first hc h
      rw [List.takeWhile_cons_of_neg hc]
      refine ⟨comment, ⟨by simp, hcomment⟩, ?_, hsolid, hend⟩
      rw [htext, Piece.text, Piece.gap, List.nil_append, List.append_assoc]

end Scan

/-- The pieces make up the text ahead, with the tokens in order, each at the
position it has after the text that was passed. -/
structure Covers (passed ahead : Text) (tokens : List Token) (pieces : List Piece) : Prop where
  tokens : pieces.map Piece.token = tokens
  text : ahead = pieces.flatMap Piece.text
  laid : ∀ p ∈ pieces, p.Laid
  solid : ∀ p ∈ pieces, p.token.kind ≠ .endOfInput → p.token.source ≠ []
  ended : ∀ p ∈ pieces, p.token.kind = .endOfInput → p.token.text = []
  placed : ∀ before p after, pieces = before ++ p :: after → p.token.kind ≠ .endOfInput →
    p.token.position = Position.after (passed ++ (before.flatMap Piece.text ++ p.blanks))

namespace Covers

variable {passed ahead : Text} {tokens : List Token} {pieces : List Piece}

theorem cons {p : Piece} (hlaid : p.Laid)
    (hsolid : p.token.kind ≠ .endOfInput → p.token.source ≠ [])
    (hended : p.token.kind = .endOfInput → p.token.text = [])
    (hplaced : p.token.kind ≠ .endOfInput → p.token.position = Position.after (passed ++ p.blanks))
    (h : Covers (passed ++ p.text) ahead tokens pieces) :
    Covers passed (p.text ++ ahead) (p.token :: tokens) (p :: pieces) where
  tokens := by rw [List.map_cons, h.tokens]
  text := by rw [List.flatMap_cons, h.text]
  laid := List.forall_mem_cons.mpr ⟨hlaid, h.laid⟩
  solid := List.forall_mem_cons.mpr ⟨hsolid, h.solid⟩
  ended := List.forall_mem_cons.mpr ⟨hended, h.ended⟩
  placed := by
    intro before q after heq hkind
    cases before with
    | nil =>
      cases heq
      exact hplaced hkind
    | cons r before =>
      cases heq
      have hpos := h.placed before q after rfl hkind
      rw [hpos, List.flatMap_cons]
      simp only [List.append_assoc]

theorem tail {p : Piece} (h : Covers passed ahead tokens (p :: pieces)) :
    Covers (passed ++ p.text) (pieces.flatMap Piece.text) (pieces.map Piece.token) pieces where
  tokens := rfl
  text := rfl
  laid := (List.forall_mem_cons.mp h.laid).2
  solid := (List.forall_mem_cons.mp h.solid).2
  ended := (List.forall_mem_cons.mp h.ended).2
  placed := by
    intro before q after heq hkind
    have hpos := h.placed (p :: before) q after (by rw [heq]; rfl) hkind
    rw [hpos, List.flatMap_cons]
    simp only [List.append_assoc]

theorem precedes {p q : Piece} (h : Covers passed ahead tokens (p :: pieces)) (hq : q ∈ pieces)
    (hp : p.token.kind ≠ .endOfInput) (hk : q.token.kind ≠ .endOfInput) :
    p.token.position.Precedes q.token.position := by
  obtain ⟨middle, after, rfl⟩ := List.append_of_mem hq
  have hfirst := h.placed [] p _ rfl hp
  have hlater := h.placed (p :: middle) q after rfl hk
  have hsplit : passed ++ ((p :: middle).flatMap Piece.text ++ q.blanks) =
      (passed ++ p.blanks) ++ (Piece.remark p.comment ++
        (p.token.source ++ (middle.flatMap Piece.text ++ q.blanks))) := by
    simp [Piece.text, Piece.gap]
  rw [hsplit] at hlater
  rw [hfirst, hlater, List.flatMap_nil, List.nil_append]
  apply Position.precedes_append
  simp [h.solid p (by simp) hp]

theorem increasing (h : Covers passed ahead tokens pieces) :
    (tokens.filter fun t => t.kind != .endOfInput).Pairwise
      fun t u => t.position.Precedes u.position := by
  rw [← h.tokens]
  induction pieces generalizing passed ahead tokens with
  | nil => exact .nil
  | cons p pieces ih =>
    have hrest := ih h.tail
    rw [List.map_cons]
    by_cases hp : p.token.kind = .endOfInput
    · rw [List.filter_cons_of_neg (by simp [hp])]
      exact hrest
    · rw [List.filter_cons_of_pos (by simp [hp])]
      refine .cons ?_ hrest
      intro u hu
      obtain ⟨hm, hk⟩ := List.mem_filter.mp hu
      obtain ⟨q, hq, rfl⟩ := List.mem_map.mp hm
      exact h.precedes hq hp (by simpa using hk)

end Covers

namespace Scanner

variable {passed ahead : Text} {s s' : Scanner} {t : Token}

/-- One token further: the piece it is in, and the text after that. -/
theorem next_piece (h : s.Awaits passed ahead) (hn : s.next = (.ok t, s')) :
    ∃ (p : Piece) (left : Text), p.token = t ∧ p.Laid ∧ ahead = p.text ++ left ∧
      (t.kind = .endOfInput → t.text = [] ∧ left = []) ∧
      (t.kind ≠ .endOfInput → t.source ≠ [] ∧
        t.position = Position.after (passed ++ p.blanks) ∧
        s'.Awaits (passed ++ p.text) left) := by
  have halong := next_along h
  cases hk : Scan.gap.along ahead with
  | none =>
    simp only [hk, hn] at halong
    obtain ⟨_, _, heq⟩ := halong
    cases heq
  | some cut =>
    obtain ⟨kind, text, left⟩ := cut
    simp only [hk, hn] at halong
    obtain ⟨_, _, heq, hcut⟩ := halong
    cases heq
    obtain ⟨rfl, rfl⟩ := hcut.lexeme
    obtain ⟨comment, hlaid, htext, hsolid, hend⟩ := Scan.along_piece hk
    refine ⟨_, left, rfl, hlaid, htext, hend, fun hne => ⟨hsolid hne, hcut.position hne, ?_⟩⟩
    obtain ⟨passed', hpassed, hawaits⟩ := hcut.awaits hne
    have hcome : passed' = passed ++ Piece.text ⟨ahead.takeWhile Text.isSpace, comment, t⟩ := by
      rw [htext, ← List.append_assoc] at hpassed
      exact (List.append_cancel_right hpassed).symm
    rwa [← hcome]

/-- The tokens that are answered up to the end of the input cover the text
ahead. -/
theorem covers_of_answers {tokens : List Token} {last : Token} (h : s.Awaits passed ahead)
    (ha : answers (tokens.length + 1) s = (tokens ++ [last]).map .ok)
    (hl : last.kind = .endOfInput) (ht : ∀ t ∈ tokens, t.kind ≠ .endOfInput) :
    ∃ pieces, Covers passed ahead (tokens ++ [last]) pieces := by
  have covers_nil (passed : Text) : Covers passed [] [] [] :=
    ⟨rfl, rfl, by simp, by simp, by simp, by simp⟩
  induction tokens generalizing passed ahead s with
  | nil =>
    have hn : s.next = (.ok last, s.next.2) := Prod.ext (List.cons.inj ha).1 rfl
    obtain ⟨p, left, rfl, hlaid, rfl, hend, _⟩ := next_piece h hn
    obtain ⟨hempty, rfl⟩ := hend hl
    exact ⟨[p], (covers_nil _).cons hlaid (fun hne => absurd hl hne) (fun _ => hempty)
      (fun hne => absurd hl hne)⟩
  | cons t tokens ih =>
    obtain ⟨hfirst, hrest⟩ := List.cons.inj ha
    have hn : s.next = (.ok t, s.next.2) := Prod.ext hfirst rfl
    have hkind := ht t (by simp)
    obtain ⟨p, left, rfl, hlaid, rfl, _, hgoes⟩ := next_piece h hn
    obtain ⟨hsolid, hposition, hawaits⟩ := hgoes hkind
    obtain ⟨pieces, hcovers⟩ := ih hawaits hrest fun u hu => ht u (by simp [hu])
    exact ⟨p :: pieces, hcovers.cons hlaid (fun _ => hsolid) (fun he => absurd he hkind)
      (fun _ => hposition)⟩

/-- If the answers up to the first end of the input are all tokens, the decoded
input is made of these tokens, with blanks of one line and comments up to the
end of theirs in between. Each token has the position it has in the input,
which is that of the comment if one stands before it; so positions increase. -/
theorem tokens_cover_input (bytes : Bytes) (tokens : List Token) (last : Token)
    (ha : answers (tokens.length + 1) (ofInput (.ofBytes bytes)) = (tokens ++ [last]).map .ok)
    (hl : last.kind = .endOfInput) (ht : ∀ t ∈ tokens, t.kind ≠ .endOfInput) :
    (∃ pieces : List Piece, pieces.map Piece.token = tokens ++ [last] ∧
      Utf8.decode bytes = pieces.flatMap Piece.text ∧ (∀ p ∈ pieces, p.Laid) ∧
      ∀ before p after, pieces = before ++ p :: after → p.token.kind ≠ .endOfInput →
        p.token.source ≠ [] ∧
        p.token.position = Position.after (before.flatMap Piece.text ++ p.blanks)) ∧
    last.source = [] ∧ tokens.Pairwise fun t u => t.position.Precedes u.position := by
  obtain ⟨pieces, hcovers⟩ := covers_of_answers (awaits_ofBytes bytes) ha hl ht
  refine ⟨⟨pieces, hcovers.tokens, hcovers.text, hcovers.laid, ?_⟩, ?_, ?_⟩
  · rintro before p after rfl hkind
    have hplaced := hcovers.placed before p after rfl hkind
    rw [List.nil_append] at hplaced
    exact ⟨hcovers.solid p (by simp) hkind, hplaced⟩
  · have hlast : last ∈ pieces.map Piece.token := by simp [hcovers.tokens]
    obtain ⟨p, hp, rfl⟩ := List.mem_map.mp hlast
    rw [Token.source, if_neg (by simp [hl]), hcovers.ended p hp hl]
  · have hinner : (tokens ++ [last]).filter (fun t => t.kind != .endOfInput) = tokens := by
      have hall : tokens.filter (fun t => t.kind != .endOfInput) = tokens :=
        List.filter_eq_self.mpr fun t hm => by simpa using ht t hm
      rw [List.filter_append, hall]
      simp [hl]
    rw [← hinner]
    exact hcovers.increasing

/-- The text `a "b" #c`, newline, `2>`. -/
theorem tokens_cover_input_comment : ∃ pieces : List Piece,
    pieces.map Piece.token = [⟨.command, ['a'], ⟨1, 1⟩⟩, ⟨.string, ['b'], ⟨1, 3⟩⟩,
      ⟨.newline, ['\n'], ⟨1, 7⟩⟩, ⟨.overwrite, ['2', '>'], ⟨2, 1⟩⟩, ⟨.endOfInput, [], ⟨2, 1⟩⟩] ∧
    Utf8.decode [97, 32, 34, 98, 34, 32, 35, 99, 10, 50, 62] = pieces.flatMap Piece.text := by
  obtain ⟨⟨pieces, htokens, htext, _⟩, _⟩ := tokens_cover_input
    [97, 32, 34, 98, 34, 32, 35, 99, 10, 50, 62]
    [⟨.command, ['a'], ⟨1, 1⟩⟩, ⟨.string, ['b'], ⟨1, 3⟩⟩, ⟨.newline, ['\n'], ⟨1, 7⟩⟩,
      ⟨.overwrite, ['2', '>'], ⟨2, 1⟩⟩] ⟨.endOfInput, [], ⟨2, 1⟩⟩
    (by decide +kernel) rfl (by decide)
  exact ⟨pieces, htokens, htext⟩

end Scanner

end TinyShell
