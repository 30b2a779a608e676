import TinyShell.Proofs.Redirection.Operators

/-!
# Numbers that a redirection keeps

A redirection is written as its operator stood in the input, without the zeros
in front of a number, if the reader has looked at the numbers. It looks at none
in an operator that redirects both streams to a file, so what the automaton has
put before the ampersand of such an operator is lost.
-/

set_option autoImplicit false

namespace TinyShell

namespace Operator

/-- Drops the zeros in front of each group of digits, but not the last digit of
a group. The flag tells that the group has begun with another digit. -/
def trimFrom : Bool → Text → Text
  | _, [] => []
  | begun, c :: rest =>
    if !begun && c == '0' && rest.head?.any Char.isDigit then trimFrom false rest
    else c :: trimFrom c.isDigit rest

def trim (text : Text) : Text := trimFrom false text

variable {digits rest : Text} {c : Char} {fd : Option Nat} {t : Token} {r : Redirection}

theorem digitChar_value (h : c.isDigit = true) :
    c.toNat - '0'.toNat < 10 ∧ Nat.digitChar (c.toNat - '0'.toNat) = c := by
  simp only [Char.isDigit, Bool.and_eq_true, decide_eq_true_eq, ge_iff_le, UInt32.le_iff_toNat_le]
    at h
  change 48 ≤ c.toNat ∧ c.toNat ≤ 57 at h
  change c.toNat - 48 < 10 ∧ Nat.digitChar (c.toNat - 48) = c
  have hlt : c.toNat - 48 < 10 := by omega
  refine ⟨hlt, Char.toNat_inj.mp ?_⟩
  rw [Nat.toNat_digitChar_of_lt_ten hlt]
  omega

/-- After a number that is not zero its digits can be read off again. -/
theorem toDigits_ofDigitChars (hd : ∀ d ∈ digits, d.isDigit = true) {n : Nat} (hn : 0 < n) :
    Nat.toDigits 10 (Nat.ofDigitChars 10 digits n) = Nat.toDigits 10 n ++ digits := by
  induction digits generalizing n with
  | nil => simp
  | cons c rest ih =>
    obtain ⟨hc, hrest⟩ := List.forall_mem_cons.mp hd
    obtain ⟨hlt, hchar⟩ := digitChar_value hc
    rw [Nat.ofDigitChars_cons, ih hrest (by omega),
      ← Nat.toDigits_append_toDigits (by decide) hn hlt, Nat.toDigits_of_lt_base hlt, hchar,
      List.append_assoc]
    rfl

/-- The digits of a number are those it was read from, unless it begins with a
zero that can be dropped. -/
theorem ofNat_value (hd : ∀ d ∈ c :: rest, d.isDigit = true) (h : c ≠ '0' ∨ rest = []) :
    Text.ofNat (Text.value (c :: rest)) = c :: rest := by
  obtain ⟨hc, hrest⟩ := List.forall_mem_cons.mp hd
  obtain ⟨hlt, hchar⟩ := digitChar_value hc
  have hfirst : Nat.toDigits 10 (c.toNat - '0'.toNat) = [c] := by
    rw [Nat.toDigits_of_lt_base hlt, hchar]
  have hvalue : Text.value (c :: rest) = Nat.ofDigitChars 10 rest (c.toNat - '0'.toNat) := by
    change Nat.ofDigitChars 10 rest (10 * 0 + (c.toNat - '0'.toNat)) = _
    rw [Nat.mul_zero, Nat.zero_add]
  rw [Text.ofNat, hvalue]
  rcases h with hzero | rfl
  · have hpos : 0 < c.toNat - '0'.toNat := by
      refine Nat.pos_of_ne_zero fun h => hzero ?_
      rw [← hchar, h]
      rfl
    rw [toDigits_ofDigitChars hrest hpos, hfirst]
    rfl
  · exact hfirst

theorem trim_zero {d : Char} (hd : d.isDigit = true) :
    trim ('0' :: d :: rest) = trim (d :: rest) := by
  simp [trim, trimFrom, hd]

theorem trim_keep (h : c ≠ '0' ∨ Stops rest) :
    trim (c :: rest) = c :: trimFrom c.isDigit rest := by
  rcases h with hc | hr
  · simp [trim, trimFrom, hc]
  · cases rest with
    | nil => simp [trim, trimFrom]
    | cons d others => simp [trim, trimFrom, hr d others rfl]

theorem trimFrom_begun (hd : ∀ d ∈ digits, d.isDigit = true)
    (hr : Stops rest) :
    trimFrom true (digits ++ rest) = digits ++ trim rest := by
  induction digits with
  | nil =>
    cases rest with
    | nil => rfl
    | cons c others =>
      have hc : c ≠ '0' := by
        rintro rfl
        cases hr _ _ rfl
      simp [trim, trimFrom, hc]
  | cons c digits ih =>
    obtain ⟨hc, hdigits⟩ := List.forall_mem_cons.mp hd
    simp [trimFrom, hc, ih hdigits]

theorem trim_digits (hn : digits ≠ []) (hd : ∀ d ∈ digits, d.isDigit = true)
    (hr : Stops rest) :
    trim (digits ++ rest) = Text.ofNat (Text.value digits) ++ trim rest := by
  induction digits with
  | nil => exact absurd rfl hn
  | cons c digits ih =>
    obtain ⟨hc, hdigits⟩ := List.forall_mem_cons.mp hd
    have kept (h : c ≠ '0' ∨ digits = []) :
        trim (c :: (digits ++ rest)) = Text.ofNat (Text.value (c :: digits)) ++ trim rest := by
      have hstop : c ≠ '0' ∨ Stops (digits ++ rest) :=
        h.imp_right fun hnil => by rwa [hnil]
      rw [trim_keep hstop, hc, trimFrom_begun hdigits hr, ofNat_value hd h]
      rfl
    cases digits with
    | nil => exact kept (.inr rfl)
    | cons d others =>
      by_cases hzero : c = '0'
      · subst hzero
        have hvalue : Text.value ('0' :: d :: others) = Text.value (d :: others) := rfl
        rw [hvalue, ← ih (by simp) hdigits]
        exact trim_zero (hdigits d (by simp))
      · exact kept (.inl hzero)

example : trim ['0', '0', '7', '>', '&', '0', '0'] = ['7', '>', '&', '0'] := by decide

theorem trim_names (h : Names digits fd)
    (hr : Stops rest) :
    trim (digits ++ rest) = Redirection.digits (fd.map Arrow.value) ++ trim rest := by
  cases h with
  | nothing => rfl
  | number hn hd _ => exact trim_digits hn hd hr

def Drops (t : Token) : Prop :=
  (t.kind = .mergeOutput ∨ t.kind = .mergeAppend) ∧ ∃ d ∈ t.text, d.isDigit = true

structure Keeps (t : Token) (r : Redirection) : Prop where
  numbers : Reencoded t r
  shown : r.operator = trim t.text ↔ ¬ Drops t
  dropped : t.kind = .mergeOutput ∨ t.kind = .mergeAppend → r.operands = [] ∧
    ∃ digits, (∀ d ∈ digits, d.isDigit = true) ∧ t.text = digits ++ r.operator

theorem output_shown {append : Bool} (ho : output? t.text = some (fd, append))
    (target : Expression) :
    (if append then Redirection.append (fd.map Arrow.value) target
      else .overwrite (fd.map Arrow.value) target).operator = trim t.text := by
  obtain ⟨digits, hnames, htext⟩ := output?_eq_some.mp ho
  have harrows : trim (arrows append) = arrows append := by cases append <;> rfl
  rw [operator_output, htext, trim_names hnames (arrows_stop append), harrows]

theorem merge_shown {source destination : Option Nat}
    (ho : merge? t.text = some (source, destination)) :
    (Redirection.mergeOf source destination).operator = trim t.text := by
  obtain ⟨before, after, hbefore, hafter, htext⟩ := merge?_eq_some.mp ho
  have hmiddle : trim ('>' :: '&' :: after) = '>' :: '&' :: trim after := by
    simp [trim, trimFrom]
  have hlast : trim after = Redirection.digits (destination.map Arrow.value) := by
    have := trim_names hafter stops_nil
    rwa [List.append_nil, show trim [] = [] from rfl, List.append_nil] at this
  rw [operator_mergeOf, htext, trim_names hbefore (stops_cons rfl), hmiddle, hlast]

theorem input_shown {target : Expression} (hs : t.Scanned) (hk : t.kind = .input) :
    (Redirection.input target).operator = trim t.text := by
  have htext : t.text = ['<'] := by
    obtain ⟨kind, text, position⟩ := t
    subst hk
    rcases hs with he | hs
    · cases he
    cases hs with
    | numbered _ hm => simp [numberedOperators] at hm
    | plain hm => simpa [plainOperators] using hm
  rw [htext]
  unfold Redirection.operator Text.ofString
  rfl

theorem keeps_shown (hn : Reencoded t r) (hk : t.kind ≠ .mergeOutput ∧ t.kind ≠ .mergeAppend)
    (h : r.operator = trim t.text) : Keeps t r where
  numbers := hn
  shown := ⟨fun _ hdrops => hdrops.1.elim hk.1 hk.2, fun _ => h⟩
  dropped := fun hkind => (hkind.elim hk.1 hk.2).elim

theorem keeps_both (hn : Reencoded t r) (hs : t.Scanned)
    (hk : t.kind = .mergeOutput ∨ t.kind = .mergeAppend)
    (ho : (t.kind, r.operator) ∈ numberedOperators) (he : r.operands = []) : Keeps t r := by
  obtain ⟨digits, hd, htext⟩ := hs.numbered_text ho
  refine ⟨hn, ?_, fun _ => ⟨he, digits, hd, htext⟩⟩
  have hplain : trim r.operator = r.operator ∧ ∀ c ∈ r.operator, c.isDigit = false := by
    rcases hk with hk | hk
    · have hr : r.operator = ['&', '>'] := by simpa [hk, numberedOperators] using ho
      rw [hr]
      exact ⟨rfl, by simp⟩
    · have hr : r.operator = ['&', '>', '>'] := by simpa [hk, numberedOperators] using ho
      rw [hr]
      exact ⟨rfl, by simp⟩
  rw [Drops, htext]
  cases digits with
  | nil => simpa [hplain.1] using fun _ => hplain.2
  | cons d others =>
    have hd' : d.isDigit = true := hd d (by simp)
    rw [trim_digits (by simp) hd fun c _ h => hplain.2 c (by simp [h]), hplain.1]
    have hlonger : r.operator ≠ Text.ofNat (Text.value (d :: others)) ++ r.operator := by
      intro h
      exact Nat.toDigits_ne_nil (List.self_eq_append_left.mp h)
    exact ⟨fun h => absurd h hlonger, fun h => absurd ⟨hk, d, by simp, hd'⟩ h⟩

theorem keeps_of_makes (hs : t.Scanned) (h : Grammar.Makes t r) : Keeps t r := by
  have hn := reencoded_of_makes hs h
  obtain ⟨rest, h⟩ := h
  cases h with
  | @file _ name _ ho _ =>
    cases ho with
    | overwrite hk ho | append hk ho =>
      exact keeps_shown hn (by rcases hk with hk | hk <;> simp [hk]) (output_shown ho _)
    | mergeOutput hk =>
      have hr : (Redirection.mergeOutput (.word name)).operator = ['&', '>'] := by
        unfold Redirection.operator Text.ofString
        rfl
      exact keeps_both hn hs (.inl hk) (by simp [hk, hr, numberedOperators]) rfl
    | mergeAppend hk =>
      have hr : (Redirection.mergeAppend (.word name)).operator = ['&', '>', '>'] := by
        unfold Redirection.operator Text.ofString
        rfl
      exact keeps_both hn hs (.inr hk) (by simp [hk, hr, numberedOperators]) rfl
    | input hk => exact keeps_shown hn (by simp [hk]) (input_shown hs hk)
  | merge hk ho =>
    rw [← Grammar.mergeOf_given] at hn ⊢
    exact keeps_shown hn (by simp [hk]) (merge_shown ho)

/-- Whatever was called before: the redirections of a statement that is read are
written as their operators stand in the input, zeros in front of numbers aside,
and have the numbers that were given, unless digits stand before an operator for
both streams. These digits are lost, and nothing else of such an operator is. -/
theorem numbers_kept_unless_both_streams {input : Input} {q q' : TokenQueue} {s : Statement}
    (hl : (TokenQueue.ofInput input).Later q) (h : q.read = (.ok (some s), q')) :
    ∃ ts, q.Hands ts q' ∧ List.Forall₂ Keeps (operators ts) s.written := by
  obtain ⟨ts, hh, hmakes⟩ := Grammar.makes_of_read hl h
  exact ⟨ts, hh, hmakes.imp fun _ _ ht => keeps_of_makes ht.1 ht.2⟩

/-- The text `a 007>f 12&>>g`: one number is kept, the other is not. -/
theorem numbers_kept_of_two : ∃ (ts : List Token) (s : Statement) (q' : TokenQueue),
    (TokenQueue.ofInput (.ofBytes
      [97, 32, 48, 48, 55, 62, 102, 32, 49, 50, 38, 62, 62, 103, 10])).read =
        (.ok (some s), q') ∧
    s.written.map Redirection.operator = [['7', '>'], ['&', '>', '>']] ∧
    List.Forall₂ Keeps (operators ts) s.written := by
  obtain ⟨s, q', hread, hwritten⟩ := @written_of_read
    (.ofInput (.ofBytes [97, 32, 48, 48, 55, 62, 102, 32, 49, 50, 38, 62, 62, 103, 10]))
    [['7', '>'], ['&', '>', '>']] (by decide +kernel)
  obtain ⟨ts, _, hts⟩ := numbers_kept_unless_both_streams .now hread
  exact ⟨ts, s, q', hread, hwritten, hts⟩

/-- The text `a 12&>>f`: the token has the number and the redirection does not. -/
theorem number_lost_before_both_streams :
    ∃ (ts : List Token) (q₁ : TokenQueue) (s : Statement) (q' : TokenQueue),
      (TokenQueue.ofInput (.ofBytes [97, 32, 49, 50, 38, 62, 62, 102, 10])).Hands ts q₁ ∧
      (TokenQueue.ofInput (.ofBytes [97, 32, 49, 50, 38, 62, 62, 102, 10])).read =
        (.ok (some s), q') ∧
      (operators ts).map Token.text = [['1', '2', '&', '>', '>']] ∧
      s.written.map Redirection.operator = [['&', '>', '>']] ∧
      ¬ List.Forall₂ (fun t r => r.operator = trim t.text) (operators ts) s.written := by
  obtain ⟨s, q', hread, hwritten⟩ := @written_of_read
    (.ofInput (.ofBytes [97, 32, 49, 50, 38, 62, 62, 102, 10])) [['&', '>', '>']]
    (by decide +kernel)
  refine ⟨[⟨.command, ['a'], ⟨1, 1⟩⟩, ⟨.mergeAppend, ['1', '2', '&', '>', '>'], ⟨1, 3⟩⟩,
    ⟨.command, ['f'], ⟨1, 8⟩⟩, ⟨.newline, ['\n'], ⟨1, 9⟩⟩], _, s, q',
    Grammar.hands_step (by decide +kernel) (Grammar.hands_step (by decide +kernel)
      (Grammar.hands_step (by decide +kernel) (Grammar.hands_step (by decide +kernel) (.nil _)))),
    hread, rfl, hwritten, fun hall => ?_⟩
  obtain ⟨r, hr⟩ : ∃ r, s.written = [r] := List.length_eq_one_iff.mp (by
    rw [← List.length_map (f := Redirection.operator), hwritten]
    rfl)
  rw [hr] at hwritten hall
  cases hall with
  | cons h _ =>
    have hoperator : r.operator = ['&', '>', '>'] := by simpa using hwritten
    rw [hoperator] at h
    exact absurd h (by decide)

end Operator

end TinyShell
