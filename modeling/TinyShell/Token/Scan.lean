import TinyShell.Input.Cursor
import TinyShell.Text.Blank

/-!
# Scanning tokens

A finite automaton reads one token at a time. `Scan.onChar` and `Scan.onEnd`
are its transitions, on a character and at the end of the input; `scan` runs
them along a cursor.
-/

set_option autoImplicit false

namespace TinyShell

def reserved : List Char :=
  [' ', '&', '|', '!', '<', '>', '"', '\'', ';', ':', '(', ')', '^', '%', '#']

def isCommandChar (c : Char) : Bool := !Text.isBlank c && !reserved.contains c

inductive Scan
  | gap
  | comment
  | word
  | number
  | quoted
  | ampersand
  | mergeArrow
  | mergeDigits
  | bar
  | arrow
deriving DecidableEq, Repr

/-- What the automaton does with a character. It passes the character, leaving it
out of the token or keeping it; or it ends the token before the character, with
it, or with it but leaving it out. A token that ends should be of some kind. -/
inductive Move
  | skip (next : Scan)
  | keep (next : Scan)
  | stop (kind : Option TokenKind)
  | take (kind : Option TokenKind)
  | close (kind : Option TokenKind)
  | refuse (expected : Text)
deriving DecidableEq, Repr

namespace Scan

def closingQuote : Text := "a closing '\"'"

def ampersandTail : Text := "'&' or '>'"

def commandCharacter : Text := "a command character"

def onEnd : Scan → Except Text (Option TokenKind)
  | gap | comment => .ok (some .endOfInput)
  | word | number => .ok (some .command)
  | quoted => .error closingQuote
  | ampersand => .error ampersandTail
  | mergeArrow => .ok (some .mergeOutput)
  | mergeDigits => .ok (some .mergeStream)
  | bar => .ok (some .pipe)
  | arrow => .ok (some .overwrite)

def onFirst (c : Char) : Move :=
  if c = '\n' then .take (some .newline)
  else if Text.isBlank c then .skip gap
  else if c = '#' then .skip comment
  else if c = '"' then .skip quoted
  else if c = '&' then .keep ampersand
  else if c = '|' then .keep bar
  else if c = '>' then .keep arrow
  else if c = '<' then .take (some .input)
  else if c = '!' then .take (some .not)
  else if c = ';' then .take (some .semicolon)
  else if c = '(' then .take (some .leftParen)
  else if c = ')' then .take (some .rightParen)
  else if c.isDigit then .keep number
  else if isCommandChar c then .keep word
  else .refuse commandCharacter

def onChar : Scan → Char → Move
  | gap, c => onFirst c
  | comment, c => if c = '\n' then .take (some .newline) else .skip comment
  | word, c => if isCommandChar c then .keep word else .stop (some .command)
  | number, c =>
    if c.isDigit then .keep number
    else if c = '>' then .keep arrow
    else if c = '&' then .keep ampersand
    else if isCommandChar c then .keep word
    else .stop (some .command)
  | quoted, c =>
    if c = '"' then .close (some .string)
    else if c = '\n' then .refuse closingQuote
    else .keep quoted
  | ampersand, c =>
    if c = '&' then .take (some .and)
    else if c = '>' then .keep mergeArrow
    else .refuse ampersandTail
  | mergeArrow, c => if c = '>' then .take (some .mergeAppend) else .stop (some .mergeOutput)
  | mergeDigits, c => if c.isDigit then .keep mergeDigits else .stop (some .mergeStream)
  | bar, c => if c = '|' then .take (some .or) else .stop (some .pipe)
  | arrow, c =>
    if c = '>' then .take (some .append)
    else if c = '&' then .keep mergeDigits
    else .stop (some .overwrite)

theorem ite_ne {α : Type} {p : Prop} [Decidable p] {a b c : α} (ha : a ≠ c) (hb : b ≠ c) :
    (if p then a else b) ≠ c := by
  by_cases h : p <;> simp [h, ha, hb]

theorem onChar_ne_none {state : Scan} {c : Char} : onChar state c ≠ .stop none ∧
    onChar state c ≠ .take none ∧ onChar state c ≠ .close none := by
  refine ⟨?_, ?_, ?_⟩ <;> cases state <;> simp only [onChar, onFirst]
  all_goals
    repeat' apply ite_ne
    all_goals simp

theorem onEnd_ne_none {state : Scan} : onEnd state ≠ .ok none := by
  cases state <;> simp [onEnd]

theorem onChar_gap_ne_stop (c : Char) (kind : Option TokenKind) : onChar gap c ≠ .stop kind := by
  unfold onChar onFirst
  repeat' apply ite_ne
  all_goals exact nofun

end Scan

structure Scanner where
  cursor : Cursor
  endPending : Bool
deriving Repr

namespace Scanner

def ofInput (input : Input) : Scanner := ⟨Cursor.ofInput input, false⟩

def clear (s : Scanner) : Scanner := { s with cursor := s.cursor.clear }

def unrecognized : Text := "lexer reached a final state without recognizing a token"

def finish (start : Position) (text : Text) (state : Scan) (cursor : Cursor) :
    Except Failure Token × Scanner :=
  match state.onEnd with
  | .error expected => (.error (.character cursor.position none expected), ⟨cursor, false⟩)
  | .ok (some kind) => (.ok ⟨kind, text, start⟩, ⟨cursor, kind != .endOfInput⟩)
  | .ok none => (.error (.argument (.other unrecognized)), ⟨cursor, true⟩)

def beginning (start : Position) (state : Scan) (cursor : Cursor) : Position :=
  if state = .gap then cursor.position else start

def scan (start : Position) (text : Text) (state : Scan) (cursor : Cursor) :
    Except Failure Token × Scanner :=
  match _h : cursor.peek with
  | (.error failure, cursor) => (.error failure, ⟨cursor, false⟩)
  | (.ok none, cursor) => finish (beginning start state cursor) text state cursor
  | (.ok (some c), cursor) =>
    let start := beginning start state cursor
    match state.onChar c with
    | .skip next => scan start text next cursor.advance
    | .keep next => scan start (text ++ [c]) next cursor.advance
    | .stop (some kind) => (.ok ⟨kind, text, start⟩, ⟨cursor, false⟩)
    | .take (some kind) => (.ok ⟨kind, text ++ [c], start⟩, ⟨cursor.advance, false⟩)
    | .close (some kind) => (.ok ⟨kind, text, start⟩, ⟨cursor.advance, false⟩)
    | .refuse expected =>
      (.error (.character cursor.position (some c) expected), ⟨cursor, false⟩)
    | .stop none => (.error (.argument (.other unrecognized)), ⟨cursor, false⟩)
    | .take none | .close none =>
      (.error (.argument (.other unrecognized)), ⟨cursor.advance, false⟩)
termination_by cursor.size
decreasing_by all_goals exact Cursor.size_advance_lt_of_peek _h

def next (s : Scanner) : Except Failure Token × Scanner :=
  if s.endPending then
    (.ok ⟨.endOfInput, [], s.cursor.position⟩, { s with endPending := false })
  else scan s.cursor.position [] .gap s.cursor

def size (s : Scanner) : Nat := s.cursor.size + if s.endPending then 1 else 0

theorem size_clear_le (s : Scanner) : s.clear.size ≤ s.size :=
  Nat.add_le_add_right s.cursor.size_clear_le _

theorem size_finish_le {start : Position} {text : Text} {state : Scan} {c : Cursor}
    {r : Except Failure Token} {s : Scanner} (h : finish start text state c = (r, s)) :
    s.size ≤ c.size + 1 := by
  have hends (pending : Bool) : size ⟨c, pending⟩ ≤ c.size + 1 := by
    cases pending <;> simp [size]
  unfold finish at h
  split at h <;> (obtain ⟨_, rfl⟩ := Prod.mk.inj h; exact hends _)

theorem size_scan_le {start : Position} {text : Text} {state : Scan} {c : Cursor}
    {r : Except Failure Token} {s : Scanner} (h : scan start text state c = (r, s)) :
    s.size ≤ c.size := by
  fun_induction scan start text state c with
  | case1 _ _ _ _ _ _ hp =>
    obtain ⟨rfl, rfl⟩ := Prod.mk.inj h
    exact Cursor.size_peek_le hp
  | case2 _ _ _ _ _ hp =>
    exact Nat.le_trans (size_finish_le h) (Cursor.phase_of_peek_none hp).2
  | case3 _ _ _ _ _ _ hp _ _ _ ih | case4 _ _ _ _ _ _ hp _ _ _ ih =>
    exact Nat.le_trans (ih h) (Nat.le_of_lt (Cursor.size_advance_lt_of_peek hp))
  | case5 _ _ _ _ _ _ hp | case8 _ _ _ _ _ _ hp | case9 _ _ _ _ _ _ hp =>
    obtain ⟨rfl, rfl⟩ := Prod.mk.inj h
    exact Cursor.size_peek_le hp
  | case6 _ _ _ _ _ _ hp | case7 _ _ _ _ _ _ hp | case10 _ _ _ _ _ _ hp
  | case11 _ _ _ _ _ _ hp =>
    obtain ⟨rfl, rfl⟩ := Prod.mk.inj h
    exact Nat.le_of_lt (Cursor.size_advance_lt_of_peek hp)

theorem size_next_lt {s s' : Scanner} {t : Token} (h : s.next = (.ok t, s')) :
    s'.size < s.size := by
  unfold next at h
  split at h
  next hp =>
    obtain ⟨_, rfl⟩ := Prod.mk.inj h
    simp [size, hp]
  next hp =>
    have : s.size = s.cursor.size := by simp [size, hp]
    rw [this]
    rw [scan] at h
    split at h
    next => cases h
    next hk =>
      obtain ⟨_, hlt⟩ := Cursor.phase_of_peek_none hk
      obtain ⟨_, rfl⟩ := Prod.mk.inj h
      simpa [size] using hlt
    next c cursor hk =>
      have hlt := Cursor.size_advance_lt_of_peek hk
      split at h
      next => exact Nat.lt_of_le_of_lt (size_scan_le h) hlt
      next => exact Nat.lt_of_le_of_lt (size_scan_le h) hlt
      next hs => exact absurd hs (Scan.onChar_gap_ne_stop _ _)
      next => obtain ⟨_, rfl⟩ := Prod.mk.inj h; exact hlt
      next => obtain ⟨_, rfl⟩ := Prod.mk.inj h; exact hlt
      all_goals cases h

theorem size_next_le {s s' : Scanner} {r : Except Failure Token} (h : s.next = (r, s')) :
    s'.size ≤ s.size := by
  unfold next at h
  split at h
  next hp =>
    obtain ⟨_, rfl⟩ := Prod.mk.inj h
    simp [size, hp]
  next hp => exact Nat.le_trans (size_scan_le h) (Nat.le_add_right _ _)

/-- A refused character is still on the line, so dropping the line passes it;
a refusal at the end of the input has seen that end. -/
theorem size_clear_scan_lt {start : Position} {text : Text} {state : Scan} {c : Cursor}
    {p : Position} {found : Option Char} {expected : Text} {s : Scanner}
    (h : scan start text state c = (.error (.character p found expected), s)) :
    s.clear.size < c.size := by
  fun_induction scan start text state c with
  | case1 _ _ _ _ _ _ hp =>
    obtain ⟨hf, rfl⟩ := Prod.mk.inj h
    cases hf
    exact absurd hp (Cursor.peek_ne_character _ _ _ _ _)
  | case2 _ _ _ _ _ hp =>
    obtain ⟨_, hlt⟩ := Cursor.phase_of_peek_none hp
    unfold finish at h
    split at h
    next =>
      obtain ⟨_, rfl⟩ := Prod.mk.inj h
      exact Nat.lt_of_le_of_lt (size_clear_le _) hlt
    all_goals cases h
  | case3 _ _ _ _ _ _ hp _ _ _ ih | case4 _ _ _ _ _ _ hp _ _ _ ih =>
    exact Nat.lt_trans (ih h) (Cursor.size_advance_lt_of_peek hp)
  | case5 | case6 | case7 | case9 | case10 | case11 => cases h
  | case8 _ _ _ _ _ _ hp =>
    obtain ⟨_, rfl⟩ := Prod.mk.inj h
    obtain ⟨_, hr⟩ := Cursor.rest_of_peek_some hp
    exact Nat.lt_of_lt_of_le (Cursor.size_clear_lt hr) (Cursor.size_peek_le hp)

theorem size_clear_next_lt {s s' : Scanner} {p : Position} {found : Option Char}
    {expected : Text} (h : s.next = (.error (.character p found expected), s')) :
    s'.clear.size < s.size := by
  unfold next at h
  split at h
  next => cases h
  next hp => exact Nat.lt_of_lt_of_le (size_clear_scan_lt h) (Nat.le_add_right _ _)

end Scanner

end TinyShell
