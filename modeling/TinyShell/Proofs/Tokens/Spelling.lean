import TinyShell.Proofs.Tokens.Along

/-!
# Scanning what was spelled out

Tokens that are written one after the other, with blanks between them and with
comments where lines end, are read back as they are. Each state of the
automaton ends its token before a blank as it does at the end of the input.
-/

set_option autoImplicit false

namespace TinyShell

def numberedOperators : List (TokenKind × Text) :=
  [(.and, ['&', '&']), (.mergeOutput, ['&', '>']), (.mergeAppend, ['&', '>', '>']),
    (.overwrite, ['>']), (.append, ['>', '>'])]

def plainOperators : List (TokenKind × Text) :=
  [(.pipe, ['|']), (.or, ['|', '|']), (.not, ['!']), (.input, ['<']), (.semicolon, [';']),
    (.leftParen, ['(']), (.rightParen, [')']), (.newline, ['\n'])]

inductive Spelled : TokenKind → Text → Prop
  | command {text : Text} (hn : text ≠ []) (h : ∀ c ∈ text, isCommandChar c = true) :
      Spelled .command text
  | string {text : Text} (hq : '"' ∉ text) (hn : '\n' ∉ text) : Spelled .string text
  | numbered {kind : TokenKind} {digits operator : Text}
      (hd : ∀ d ∈ digits, d.isDigit = true) (h : (kind, operator) ∈ numberedOperators) :
      Spelled kind (digits ++ operator)
  | mergeStream {source target : Text} (hs : ∀ d ∈ source, d.isDigit = true)
      (ht : ∀ d ∈ target, d.isDigit = true) : Spelled .mergeStream (source ++ '>' :: '&' :: target)
  | plain {kind : TokenKind} {text : Text} (h : (kind, text) ∈ plainOperators) : Spelled kind text

theorem Spelled.ne_endOfInput {kind : TokenKind} {text : Text} (h : Spelled kind text) :
    kind ≠ .endOfInput := by
  rintro rfl
  cases h with
  | numbered _ h => simp [numberedOperators] at h
  | plain h => simp [plainOperators] at h

theorem Spelled.newline {kind : TokenKind} {text : Text} (h : Spelled kind text)
    (hk : kind = .newline) : kind = .newline ∧ text = ['\n'] := by
  subst hk
  cases h with
  | numbered _ h => simp [numberedOperators] at h
  | plain h => exact ⟨rfl, by simpa [plainOperators] using h⟩

def Text.Apart (text : Text) : Prop := ∀ c rest, text = c :: rest → Text.isSpace c = true

def Token.lexeme (t : Token) : TokenKind × Text := (t.kind, t.text)

theorem isDigit_of_blank {c : Char} (h : Text.isBlank c = true) : c.isDigit = false := by
  rw [Bool.eq_false_iff]
  intro hd
  simp only [Char.isDigit, Bool.and_eq_true, decide_eq_true_eq, ge_iff_le, UInt32.le_iff_toNat_le]
    at hd
  change 48 ≤ c.toNat ∧ c.toNat ≤ 57 at hd
  simp only [Text.isBlank, Bool.or_eq_true, Bool.and_eq_true, decide_eq_true_eq, beq_iff_eq] at h
  omega

theorem isCommandChar_of_digit {c : Char} (h : c.isDigit = true) : isCommandChar c = true := by
  have hblank : Text.isBlank c = false := by
    rw [Bool.eq_false_iff]
    intro hb
    rw [isDigit_of_blank hb] at h
    cases h
  have hfree : reserved.contains c = false := by
    have hall : reserved.all (fun d => !d.isDigit) = true := by decide
    rw [Bool.eq_false_iff, ne_eq, List.contains_iff_mem]
    intro hm
    have hc := List.all_eq_true.mp hall c hm
    rw [h] at hc
    cases hc
  rw [isCommandChar, hblank, hfree]
  rfl

namespace Scan

variable {state next : Scan} {rest text : Text} {kind : TokenKind}

theorem onChar_blank {c : Char} (hc : Text.isSpace c = true)
    (hs : state ≠ .gap ∧ state ≠ .comment) (h : state.onEnd = .ok (some kind)) :
    state.onChar c = .stop (some kind) := by
  obtain ⟨hb, _⟩ : Text.isBlank c = true ∧ (c != '\n') = true := by
    simpa [Text.isSpace] using hc
  have hcommand : isCommandChar c = false := by simp [isCommandChar, hb]
  have hdigit := isDigit_of_blank hb
  have hne {x : Char} (hx : Text.isBlank x = false) : c ≠ x := by
    rintro rfl
    rw [hb] at hx
    cases hx
  have harrow : c ≠ '>' := hne (by decide)
  have hampersand : c ≠ '&' := hne (by decide)
  have hbar : c ≠ '|' := hne (by decide)
  cases state with
  | gap => exact absurd rfl hs.1
  | comment => exact absurd rfl hs.2
  | quoted | ampersand => cases h
  | _ =>
    cases h
    simp [onChar, hcommand, hdigit, harrow, hampersand, hbar]

theorem along_apart (hr : rest.Apart) (hs : state ≠ .gap ∧ state ≠ .comment)
    (h : state.onEnd = .ok (some kind)) : state.along rest = some (kind, [], rest) := by
  cases rest with
  | nil => simp [along, h]
  | cons c rest => simp [along, onChar_blank (hr c rest rfl) hs h]

theorem along_keep {c : Char} (h : state.onChar c = .keep next)
    (hn : next.along (text ++ rest) = some (kind, text, rest)) :
    state.along (c :: text ++ rest) = some (kind, c :: text, rest) := by
  simp [along, h, hn]

theorem along_take {c : Char} (h : state.onChar c = .take (some kind)) :
    state.along (c :: rest) = some (kind, [c], rest) := by
  simp [along, h]

theorem along_run {more left : Text} (ht : ∀ c ∈ text, state.onChar c = .keep state)
    (h : state.along rest = some (kind, more, left)) :
    state.along (text ++ rest) = some (kind, text ++ more, left) := by
  induction text with
  | nil => exact h
  | cons c text ih =>
    obtain ⟨hc, htext⟩ := List.forall_mem_cons.mp ht
    simp [along, hc, ih htext]

theorem onFirst_command {c : Char} (h : isCommandChar c = true) :
    onFirst c = .keep (if c.isDigit then .number else .word) := by
  obtain ⟨hb, hfree⟩ : Text.isBlank c = false ∧ c ∉ reserved := by
    simpa [isCommandChar] using h
  have hn : c ≠ '\n' := by
    rintro rfl
    revert hb
    decide
  simp only [reserved, List.mem_cons, List.not_mem_nil, not_or] at hfree
  by_cases hd : c.isDigit = true <;> simp [onFirst, hn, hb, hfree, hd, h]

theorem along_word (hr : rest.Apart) (ht : ∀ c ∈ text, isCommandChar c = true) :
    word.along (text ++ rest) = some (.command, text, rest) := by
  have hend : word.along rest = some (.command, [], rest) := along_apart hr (by decide) rfl
  simpa using along_run (fun c hc => by simp [onChar, ht c hc]) hend

theorem along_number (hr : rest.Apart) (ht : ∀ c ∈ text, isCommandChar c = true) :
    number.along (text ++ rest) = some (.command, text, rest) := by
  induction text with
  | nil => exact along_apart hr (by decide) rfl
  | cons c text ih =>
    obtain ⟨hc, htext⟩ := List.forall_mem_cons.mp ht
    by_cases hd : c.isDigit = true
    · exact along_keep (by simp [onChar, hd]) (ih htext)
    · have hne {x : Char} (hx : isCommandChar x = false) : c ≠ x := by
        rintro rfl
        rw [hc] at hx
        cases hx
      have harrow : c ≠ '>' := hne (by decide)
      have hampersand : c ≠ '&' := hne (by decide)
      exact along_keep (by simp [onChar, hd, harrow, hampersand, hc]) (along_word hr htext)

theorem along_digits {digits : Text} {c : Char} (hd : ∀ d ∈ digits, d.isDigit = true)
    (hg : gap.onChar c = .keep next) (hn : number.onChar c = .keep next)
    (h : next.along (text ++ rest) = some (kind, text, rest)) :
    gap.along (digits ++ c :: text ++ rest) = some (kind, digits ++ c :: text, rest) := by
  cases digits with
  | nil => exact along_keep hg h
  | cons d digits =>
    obtain ⟨hfirst, hdigits⟩ := List.forall_mem_cons.mp hd
    have hrun : number.along (digits ++ (c :: text ++ rest)) =
        some (kind, digits ++ c :: text, rest) :=
      along_run (fun e he => by simp [onChar, hdigits e he]) (along_keep hn h)
    have hkeep : gap.onChar d = .keep .number := by
      rw [onChar, onFirst_command (isCommandChar_of_digit hfirst), if_pos hfirst]
    rw [← List.append_assoc] at hrun
    exact along_keep hkeep hrun

theorem along_numbered {digits operator : Text} (hr : rest.Apart)
    (hd : ∀ d ∈ digits, d.isDigit = true) (h : (kind, operator) ∈ numberedOperators) :
    gap.along (digits ++ operator ++ rest) = some (kind, digits ++ operator, rest) := by
  have hampersand : gap.onChar '&' = .keep .ampersand := by decide
  have harrow : gap.onChar '>' = .keep .arrow := by decide
  simp only [numberedOperators, List.mem_cons, Prod.mk.injEq, List.not_mem_nil, or_false] at h
  rcases h with ⟨rfl, rfl⟩ | ⟨rfl, rfl⟩ | ⟨rfl, rfl⟩ | ⟨rfl, rfl⟩ | ⟨rfl, rfl⟩
  · exact along_digits hd hampersand rfl (along_take rfl)
  · exact along_digits hd hampersand rfl
      (@along_keep _ mergeArrow _ [] _ _ rfl (along_apart hr (by decide) rfl))
  · exact along_digits hd hampersand rfl (@along_keep _ mergeArrow _ ['>'] _ _ rfl (along_take rfl))
  · exact @along_digits _ _ [] _ _ _ hd harrow rfl (along_apart hr (by decide) rfl)
  · exact along_digits hd harrow rfl (along_take rfl)

theorem along_mergeStream {source target : Text} (hr : rest.Apart)
    (hs : ∀ d ∈ source, d.isDigit = true) (ht : ∀ d ∈ target, d.isDigit = true) :
    gap.along (source ++ '>' :: '&' :: target ++ rest) =
      some (.mergeStream, source ++ '>' :: '&' :: target, rest) := by
  have hend : mergeDigits.along rest = some (.mergeStream, [], rest) :=
    along_apart hr (by decide) rfl
  have htarget : mergeDigits.along (target ++ rest) = some (.mergeStream, target, rest) := by
    simpa using along_run (fun d hd => by simp [onChar, ht d hd]) hend
  exact along_digits hs (by decide) rfl (@along_keep arrow _ _ _ _ '&' rfl htarget)

theorem along_operator (hr : rest.Apart) (h : (kind, text) ∈ plainOperators) :
    gap.along (text ++ rest) = some (kind, text, rest) := by
  have hbar : gap.onChar '|' = .keep .bar := by decide
  simp only [plainOperators, List.mem_cons, Prod.mk.injEq, List.not_mem_nil, or_false] at h
  rcases h with ⟨rfl, rfl⟩ | ⟨rfl, rfl⟩ | ⟨rfl, rfl⟩ | ⟨rfl, rfl⟩ | ⟨rfl, rfl⟩ | ⟨rfl, rfl⟩ |
    ⟨rfl, rfl⟩ | ⟨rfl, rfl⟩
  · exact @along_keep _ _ _ [] _ _ hbar (along_apart hr (by decide) rfl)
  · exact along_keep hbar (along_take rfl)
  all_goals exact along_take (by decide)

theorem along_string (hq : '"' ∉ text) (hn : '\n' ∉ text) :
    quoted.along (text ++ '"' :: rest) = some (.string, text, rest) := by
  have hclose : quoted.along ('"' :: rest) = some (.string, [], rest) := rfl
  have hkeep : ∀ c ∈ text, quoted.onChar c = .keep quoted := by
    intro c hc
    have hquote : c ≠ '"' := fun he => hq (he ▸ hc)
    have hnewline : c ≠ '\n' := fun he => hn (he ▸ hc)
    simp [onChar, hquote, hnewline]
  simpa using along_run hkeep hclose

theorem along_source {t : Token} (h : Spelled t.kind t.text) (hr : rest.Apart) :
    gap.along (t.source ++ rest) = some (t.kind, t.text, rest) := by
  obtain ⟨kind, text, position⟩ := t
  cases h with
  | command hn ht =>
    obtain ⟨c, text, rfl⟩ := List.exists_cons_of_ne_nil hn
    obtain ⟨hc, htext⟩ := List.forall_mem_cons.mp ht
    have hfirst : gap.onChar c = .keep (if c.isDigit then .number else .word) := onFirst_command hc
    by_cases hd : c.isDigit = true
    · rw [if_pos hd] at hfirst
      exact along_keep hfirst (along_number hr htext)
    · rw [if_neg hd] at hfirst
      exact along_keep hfirst (along_word hr htext)
  | string hq hn =>
    have hopen : gap.onChar '"' = .skip .quoted := by decide
    simp [Token.source, along, hopen, along_string hq hn]
  | numbered hd hk =>
    rw [Token.source, if_neg]
    · exact along_numbered hr hd hk
    · rintro rfl
      revert hk
      simp [numberedOperators]
  | mergeStream hs ht => exact along_mergeStream hr hs ht
  | plain hk =>
    rw [Token.source, if_neg]
    · exact along_operator hr hk
    · rintro rfl
      revert hk
      simp [plainOperators]

theorem along_blanks {blanks : Text} (h : ∀ c ∈ blanks, Text.isSpace c = true) :
    gap.along (blanks ++ rest) = gap.along rest := by
  induction blanks with
  | nil => rfl
  | cons c blanks ih =>
    obtain ⟨hc, hblanks⟩ := List.forall_mem_cons.mp h
    simp [along, onChar_space hc, ih hblanks]

theorem along_body {body : Text} (h : '\n' ∉ body) :
    comment.along (body ++ rest) = comment.along rest := by
  induction body with
  | nil => rfl
  | cons c body ih =>
    have hc : c ≠ '\n' := fun he => h (by simp [he])
    simp [along, onChar, hc, ih (fun hm => h (by simp [hm]))]

/-- The end of a line or of the input comes behind a comment as without. -/
theorem along_remark {remark : Option Text} (hb : ∀ body, remark = some body → '\n' ∉ body)
    (hr : rest = [] ∨ ∃ more, rest = '\n' :: more) :
    gap.along (Piece.remark remark ++ rest) = gap.along rest := by
  cases remark with
  | none => rfl
  | some body =>
    have hopen : gap.onChar '#' = .skip .comment := by decide
    have hnewline : gap.onChar '\n' = .take (some .newline) := by decide
    simp only [Piece.remark, List.cons_append, along, hopen, along_body (hb body rfl)]
    rcases hr with rfl | ⟨more, rfl⟩
    · rfl
    · simp [along, onChar, onFirst]

/-- A token and the gap before it, where a blank follows or nothing. -/
theorem along_text {p : Piece} (hl : p.Laid) (h : Spelled p.token.kind p.token.text)
    (hr : rest.Apart) : gap.along (p.text ++ rest) = some (p.token.kind, p.token.text, rest) := by
  rw [Piece.text, Piece.gap, List.append_assoc, List.append_assoc, along_blanks hl.blanks]
  cases hc : p.comment with
  | none => exact along_source h hr
  | some body =>
    obtain ⟨hbody, hkind⟩ := hl.comment body hc
    have hnewline := h.newline (hkind.resolve_right h.ne_endOfInput)
    have hsource : p.token.source = ['\n'] := by
      rw [Token.source, if_neg (by simp [hnewline.1]), hnewline.2]
    rw [along_remark (by simpa using hbody) (.inr ⟨rest, by rw [hsource]; rfl⟩), along_source h hr]

end Scan

namespace Text

variable {blanks closing : Text}

theorem Apart.ofBlanks (hb : ∀ c ∈ blanks, isSpace c = true) (hn : blanks ≠ []) (rest : Text) :
    Apart (blanks ++ rest) := by
  obtain ⟨c, others, rfl⟩ := List.exists_cons_of_ne_nil hn
  intro d more heq
  obtain ⟨rfl, _⟩ := List.cons.inj heq
  exact hb c (by simp)

theorem Apart.pieces {pieces : List Piece} (hp : ∀ p ∈ pieces, p.Laid ∧ p.blanks ≠ [])
    (hc : closing.Apart) : Apart (pieces.flatMap Piece.text ++ closing) := by
  cases pieces with
  | nil => exact hc
  | cons p pieces =>
    obtain ⟨hlaid, hne⟩ := hp p (by simp)
    simp only [List.flatMap_cons, Piece.text, Piece.gap, List.append_assoc]
    exact .ofBlanks hlaid.blanks hne _

end Text

namespace Scanner

theorem answers_pieces {s : Scanner} {passed closing : Text} {pieces : List Piece} (n : Nat)
    (h : s.Awaits passed (pieces.flatMap Piece.text ++ closing))
    (hp : ∀ p ∈ pieces, p.Laid ∧ Spelled p.token.kind p.token.text)
    (hb : ∀ p ∈ pieces.tail, p.blanks ≠ []) (ha : pieces ≠ [] → closing.Apart)
    (hc : Scan.gap.along closing = some (.endOfInput, [], [])) :
    (answers (pieces.length + 1 + n) s).map (Except.map Token.lexeme) =
      pieces.map (fun p => .ok p.token.lexeme) ++
        .ok (.endOfInput, []) :: List.replicate n (.error .inputClosed) := by
  induction pieces generalizing s passed with
  | nil =>
    have hnext := next_along h
    simp only [List.flatMap_nil, List.nil_append, hc] at hnext
    obtain ⟨t, s', hs, hcut⟩ := hnext
    obtain ⟨hkind, htext⟩ := hcut.lexeme
    rw [List.length_nil, Nat.zero_add, Nat.add_comm, answers, hs,
      answers_closed (hcut.closed hkind)]
    simp [Except.map, Token.lexeme, hkind, htext]
  | cons p pieces ih =>
    obtain ⟨⟨hlaid, hspelled⟩, hpieces⟩ := List.forall_mem_cons.mp hp
    -- The token of the first piece ends where the blanks of the next begin.
    have happart : Text.Apart (pieces.flatMap Piece.text ++ closing) :=
      .pieces (fun q hq => ⟨(hpieces q hq).1, hb q hq⟩) (ha (by simp))
    have hnext := next_along h
    rw [List.flatMap_cons, List.append_assoc, Scan.along_text hlaid hspelled happart] at hnext
    obtain ⟨t, s', hs, hcut⟩ := hnext
    obtain ⟨hkind, htext⟩ := hcut.lexeme
    obtain ⟨passed', _, hawaits⟩ := hcut.awaits (by rw [hkind]; exact hspelled.ne_endOfInput)
    have hrest := ih hawaits hpieces (fun q hq => hb q (List.mem_of_mem_tail hq))
      (fun _ => ha (by simp))
    have hlength : (p :: pieces).length + 1 + n = pieces.length + 1 + n + 1 := by
      simp only [List.length_cons]
      omega
    rw [hlength, answers, hs, List.map_cons, hrest]
    simp [Except.map, Token.lexeme, hkind, htext]

/-- Tokens that are spelled out with blanks between them, and with comments
before ends of lines and at the end, are read back in order. The end of the
input comes once, and every later call fails. -/
theorem answers_spelled (pieces : List Piece) (blanks : Text) (comment : Option Text) (n : Nat)
    (hp : ∀ p ∈ pieces, p.Laid ∧ Spelled p.token.kind p.token.text)
    (hb : ∀ p ∈ pieces.tail, p.blanks ≠ []) (hl : ∀ c ∈ blanks, Text.isSpace c = true)
    (hc : ∀ body, comment = some body → '\n' ∉ body ∧ (pieces ≠ [] → blanks ≠ [])) :
    (answers (pieces.length + 1 + n) (ofInput (.ofBytes (Utf8.encode
        (pieces.flatMap Piece.text ++ (blanks ++ Piece.remark comment)))))).map
        (Except.map Token.lexeme) =
      pieces.map (fun p => .ok p.token.lexeme) ++
        .ok (.endOfInput, []) :: List.replicate n (.error .inputClosed) := by
  have hawaits := awaits_ofBytes
    (Utf8.encode (pieces.flatMap Piece.text ++ (blanks ++ Piece.remark comment)))
  rw [Utf8.decode_encode] at hawaits
  refine answers_pieces n hawaits hp hb (fun hne => ?_) ?_
  · by_cases hn : blanks = []
    · cases comment with
      | none =>
        subst hn
        intro c rest heq
        cases heq
      | some body => exact absurd hn ((hc body rfl).2 hne)
    · exact .ofBlanks hl hn _
  · have hend := Scan.along_remark (fun body hbody => (hc body hbody).1) (.inl rfl)
    rw [List.append_nil] at hend
    rw [Scan.along_blanks hl, hend]
    rfl

/-- The text `2>&`, a wide blank, `"x y"`, a tab, `#c`, newline, and a blank. -/
theorem answers_spelled_comment :
    (answers 6 (ofInput (.ofBytes (Utf8.encode
        ['2', '>', '&', '\u3000', '"', 'x', ' ', 'y', '"', '\t', '#', 'c', '\n', ' '])))).map
        (Except.map Token.lexeme) =
      [.ok (.mergeStream, ['2', '>', '&']), .ok (.string, ['x', ' ', 'y']), .ok (.newline, ['\n']),
        .ok (.endOfInput, []), .error .inputClosed, .error .inputClosed] := by
  have hp : ∀ p ∈ [(⟨[], none, ⟨.mergeStream, ['2', '>', '&'], ⟨1, 1⟩⟩⟩ : Piece),
      ⟨['\u3000'], none, ⟨.string, ['x', ' ', 'y'], ⟨1, 5⟩⟩⟩,
      ⟨['\t'], some ['c'], ⟨.newline, ['\n'], ⟨1, 11⟩⟩⟩],
      p.Laid ∧ Spelled p.token.kind p.token.text := by
    simp only [List.forall_mem_cons]
    refine ⟨⟨⟨by simp, by simp⟩, ?_⟩, ⟨⟨?_, by simp⟩, .string (by simp) (by simp)⟩,
      ⟨⟨?_, by simp⟩, .plain (by simp [plainOperators])⟩, by simp⟩
    · exact @Spelled.mergeStream ['2'] [] (List.forall_mem_singleton.mpr rfl) (by simp)
    · exact List.forall_mem_singleton.mpr rfl
    · exact List.forall_mem_singleton.mpr rfl
  have h := answers_spelled _ [' '] none 2 hp (by simp) (List.forall_mem_singleton.mpr rfl)
    (by simp)
  simpa [Piece.text, Piece.gap, Piece.remark, Token.source, Token.lexeme, List.replicate] using h

end Scanner

end TinyShell
